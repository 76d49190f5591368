import CortxMio.Basic

/-!
# The entry points

Every operation enters the library through a function of its own, which checks its
arguments and the instance, initialises the operation and calls a function of the
driver through a table. These functions are all of one shape
(`CortxMio.Entry.launch`), but for `mio_kvs_pair_del`: there the call is not part of
the expression that the code is computed by.

A call is lawful (`CortxMio.Entry.Lawful`) if the driver's function is called only
after all checks, if the code is that of the first check that fails, `-EOPNOTSUPP` for
a function that the driver does not have, and otherwise the one of the driver.
`CortxMio.Entry.lawful_iff` says exactly which calls are. Only the key-value
operations look at the table, and not at all of its entries; everywhere else a
function that is missing is called nevertheless, as is `mcoo_del` of the Motr driver
(`CortxMio.Entry.not_lawful_motr`).

The arguments are passed on as they are, so of pointers only matters whether they are
`NULL`. Which pool a new object goes to has no part in this either.
-/

namespace CortxMio

namespace Entry

/-! ### Drivers -/

/-- The functions of `struct mio_obj_ops` that launch an operation. -/
inductive ObjFn
  /-- `moo_open`. -/
  | mooOpen
  /-- `moo_create`. -/
  | mooCreate
  /-- `moo_delete`. -/
  | mooDelete
  /-- `moo_writev`. -/
  | mooWritev
  /-- `moo_readv`. -/
  | mooReadv
  /-- `moo_sync`. -/
  | mooSync
  /-- `moo_size`. -/
  | mooSize
  deriving DecidableEq, Repr

/-- The functions of `struct mio_kvs_ops`. -/
inductive KvsFn
  /-- `mko_get`. -/
  | mkoGet
  /-- `mko_next`. -/
  | mkoNext
  /-- `mko_put`. -/
  | mkoPut
  /-- `mko_del`. -/
  | mkoDel
  /-- `mko_create_set`. -/
  | mkoCreateSet
  /-- `mko_del_set`. -/
  | mkoDelSet
  deriving DecidableEq, Repr

/-- The functions of `struct mio_comp_obj_ops`. -/
inductive CompFn
  /-- `mcoo_create`. -/
  | mcooCreate
  /-- `mcoo_del`. -/
  | mcooDel
  /-- `mcoo_add_layers`. -/
  | mcooAddLayers
  /-- `mcoo_del_layers`. -/
  | mcooDelLayers
  /-- `mcoo_list_layers`. -/
  | mcooListLayers
  /-- `mcoo_add_extents`. -/
  | mcooAddExtents
  /-- `mcoo_del_extents`. -/
  | mcooDelExtents
  /-- `mcoo_get_extents`. -/
  | mcooGetExtents
  deriving DecidableEq, Repr

/-- How a function of a driver ends. Such a function has to add an op to the chain
before it launches one, and does not succeed without. -/
structure DrvEnd where
  /-- Its code. -/
  rc : ℤ
  /-- Whether it has added an op to the chain of the operation. -/
  opAdded : Bool
  /-- It succeeds only if it has. -/
  added_of_success : rc = 0 → opAdded = true
  deriving DecidableEq

/-- A table of functions, with what each would end with; `none` is `NULL`. -/
abbrev Table (F : Type) := F → Option DrvEnd

/-- `struct mio_driver`. -/
structure MioDriver where
  /-- Whether `md_sys_ops` is set. -/
  mdSysOps : Bool
  /-- Whether `md_op_ops` is set. -/
  mdOpOps : Bool
  /-- `md_obj_ops`. -/
  mdObjOps : Option (Table ObjFn)
  /-- `md_kvs_ops`. -/
  mdKvsOps : Option (Table KvsFn)
  /-- `md_comp_obj_ops`. -/
  mdCompObjOps : Option (Table CompFn)

/-- `struct mio`. -/
structure Mio where
  /-- `m_driver`. -/
  mDriver : Option MioDriver

/-- What an entry point is called with. -/
structure Args where
  /-- The object handle, with its `mo_drv_obj_ops`. -/
  obj : Option (Option (Table ObjFn))
  /-- Whether there is an object identifier. -/
  oid : Bool
  /-- Whether there is an identifier of a key-value set. -/
  kid : Bool
  /-- Whether there is an operation. -/
  op : Bool

/-- How a call of an entry point ends. -/
inductive CallEnd
  /-- It goes through a `NULL` pointer. -/
  | crash
  /-- It returns a code; the driver's function, if it was called, has ended so. -/
  | ret (rc : ℤ) (called : Option DrvEnd)
  deriving DecidableEq

variable (inst : Option Mio) (a : Args)

/-! ### Checks -/

/-- `mio_instance_check`. -/
def mioInstanceCheck : ℤ :=
  match inst with
  | none => -EINVAL
  | some mio => match mio.mDriver with
      | none => -EINVAL
      | some d => if d.mdSysOps = false ∨ d.mdOpOps = false then -EINVAL else 0

/-- `mio_obj_op_init`. -/
def mioObjOpInit : ℤ := if a.op = false then -EINVAL else mioInstanceCheck inst

/-- `obj_init`. -/
def objInit : ℤ := if a.oid = false ∨ a.obj = none then -EINVAL else mioInstanceCheck inst

/-- The table of the driver of the instance. -/
def driverTable {F : Type} (ops : MioDriver → Option (Table F)) : Option (Table F) :=
  (inst.bind Mio.mDriver).bind ops

/-- `kvs_driver_check`: of `mko_next` it does not ask. -/
def kvsDriverCheck : ℤ :=
  if mioInstanceCheck inst < 0 then mioInstanceCheck inst
  else match driverTable inst MioDriver.mdKvsOps with
    | none => -EOPNOTSUPP
    | some t =>
        if t .mkoGet = none ∨ t .mkoPut = none ∨ t .mkoDel = none ∨ t .mkoCreateSet = none ∨
          t .mkoDelSet = none then -EOPNOTSUPP else 0

/-- `kvs_op_init`. -/
def kvsOpInit : ℤ :=
  if kvsDriverCheck inst < 0 then kvsDriverCheck inst
  else if a.kid = false ∨ a.op = false then -EINVAL
  else mioInstanceCheck inst

/-- The check that an entry point makes of its handle itself. -/
def objCheck : ℤ := if a.obj = none then -EINVAL else 0

/-! ### Entry points -/

/-- Call a function through a table. -/
def callThrough {F : Type} (table : Option (Table F)) (f : F) : CallEnd :=
  match table.bind fun t => t f with
  | none => .crash
  | some e => .ret e.rc (some e)

/-- The code of the first check that fails. -/
def firstError (checks : List ℤ) : ℤ := (checks.find? (· ≠ 0)).getD 0

/-- `check ? : check ? : call`. -/
def launch {F : Type} (checks : List ℤ) (table : Option (Table F)) (f : F) : CallEnd :=
  if firstError checks ≠ 0 then .ret (firstError checks) none else callThrough table f

/-- `mio_obj_open`: `obj_init` sets the functions of the handle. -/
def mioObjOpen : CallEnd :=
  launch [objInit inst a, mioObjOpInit inst a] (driverTable inst MioDriver.mdObjOps) .mooOpen

/-- `mio_obj_create`. -/
def mioObjCreate : CallEnd :=
  launch [objInit inst a, mioObjOpInit inst a] (driverTable inst MioDriver.mdObjOps) .mooCreate

/-- `mio_obj_delete`. -/
def mioObjDelete : CallEnd :=
  launch [mioObjOpInit inst a] (driverTable inst MioDriver.mdObjOps) .mooDelete

/-- The entry points on a handle. -/
def objCall (f : ObjFn) : CallEnd :=
  launch [if a.obj = none ∨ a.op = false then -EINVAL else 0, mioObjOpInit inst a] a.obj.join f

/-- `mio_obj_writev`. -/
def mioObjWritev : CallEnd := objCall inst a .mooWritev

/-- `mio_obj_readv`. -/
def mioObjReadv : CallEnd := objCall inst a .mooReadv

/-- `mio_obj_sync`. -/
def mioObjSync : CallEnd := objCall inst a .mooSync

/-- `mio_obj_size`. -/
def mioObjSize : CallEnd := objCall inst a .mooSize

/-- The entry points for key-value sets, but one. -/
def kvsCall (f : KvsFn) : CallEnd :=
  launch [kvsOpInit inst a] (driverTable inst MioDriver.mdKvsOps) f

/-- `mio_kvs_pair_get`. -/
def mioKvsPairGet : CallEnd := kvsCall inst a .mkoGet

/-- `mio_kvs_pair_next`. -/
def mioKvsPairNext : CallEnd := kvsCall inst a .mkoNext

/-- `mio_kvs_pair_put`. -/
def mioKvsPairPut : CallEnd := kvsCall inst a .mkoPut

/-- `mio_kvs_pair_del`: the code is that of the check, and the function is called in a
statement of its own. -/
def mioKvsPairDel : CallEnd :=
  match callThrough (driverTable inst MioDriver.mdKvsOps) .mkoDel with
  | .crash => .crash
  | .ret _ called => .ret (kvsOpInit inst a) called

/-- `mio_kvs_create_set`. -/
def mioKvsCreateSet : CallEnd := kvsCall inst a .mkoCreateSet

/-- `mio_kvs_del_set`. -/
def mioKvsDelSet : CallEnd := kvsCall inst a .mkoDelSet

/-- `mio_composite_obj_create`. -/
def mioCompositeObjCreate : CallEnd :=
  launch [objInit inst a, mioObjOpInit inst a] (driverTable inst MioDriver.mdCompObjOps) .mcooCreate

/-- `mio_composite_obj_del`. -/
def mioCompositeObjDel : CallEnd :=
  launch [if a.oid = false then -EINVAL else 0, mioObjOpInit inst a]
    (driverTable inst MioDriver.mdCompObjOps) .mcooDel

/-- The entry points on the handle of a composite object. -/
def compCall (f : CompFn) : CallEnd :=
  launch [objCheck a, mioObjOpInit inst a] (driverTable inst MioDriver.mdCompObjOps) f

/-- `mio_composite_obj_add_layers`. -/
def mioCompositeObjAddLayers : CallEnd := compCall inst a .mcooAddLayers

/-- `mio_composite_obj_del_layers`. -/
def mioCompositeObjDelLayers : CallEnd := compCall inst a .mcooDelLayers

/-- `mio_composite_obj_list_layers`. -/
def mioCompositeObjListLayers : CallEnd := compCall inst a .mcooListLayers

/-- `mio_composite_obj_add_extents`. -/
def mioCompositeObjAddExtents : CallEnd := compCall inst a .mcooAddExtents

/-- `mio_composite_obj_del_extents`. -/
def mioCompositeObjDelExtents : CallEnd := compCall inst a .mcooDelExtents

/-- `mio_composite_obj_get_extents`. -/
def mioCompositeObjGetExtents : CallEnd := compCall inst a .mcooGetExtents

/-! ### All of them -/

/-- The entry points that launch an operation. -/
inductive EntryPoint
  /-- `mio_obj_open`. -/
  | objOpen
  /-- `mio_obj_create`. -/
  | objCreate
  /-- `mio_obj_delete`. -/
  | objDelete
  /-- `mio_obj_writev`. -/
  | objWritev
  /-- `mio_obj_readv`. -/
  | objReadv
  /-- `mio_obj_sync`. -/
  | objSync
  /-- `mio_obj_size`. -/
  | objSize
  /-- `mio_kvs_pair_get`. -/
  | kvsPairGet
  /-- `mio_kvs_pair_next`. -/
  | kvsPairNext
  /-- `mio_kvs_pair_put`. -/
  | kvsPairPut
  /-- `mio_kvs_pair_del`. -/
  | kvsPairDel
  /-- `mio_kvs_create_set`. -/
  | kvsCreateSet
  /-- `mio_kvs_del_set`. -/
  | kvsDelSet
  /-- `mio_composite_obj_create`. -/
  | compositeObjCreate
  /-- `mio_composite_obj_del`. -/
  | compositeObjDel
  /-- `mio_composite_obj_add_layers`. -/
  | compositeObjAddLayers
  /-- `mio_composite_obj_del_layers`. -/
  | compositeObjDelLayers
  /-- `mio_composite_obj_list_layers`. -/
  | compositeObjListLayers
  /-- `mio_composite_obj_add_extents`. -/
  | compositeObjAddExtents
  /-- `mio_composite_obj_del_extents`. -/
  | compositeObjDelExtents
  /-- `mio_composite_obj_get_extents`. -/
  | compositeObjGetExtents
  deriving DecidableEq, Repr

namespace EntryPoint

/-- Call it. -/
def call : EntryPoint → CallEnd
  | objOpen => mioObjOpen inst a
  | objCreate => mioObjCreate inst a
  | objDelete => mioObjDelete inst a
  | objWritev => mioObjWritev inst a
  | objReadv => mioObjReadv inst a
  | objSync => mioObjSync inst a
  | objSize => mioObjSize inst a
  | kvsPairGet => mioKvsPairGet inst a
  | kvsPairNext => mioKvsPairNext inst a
  | kvsPairPut => mioKvsPairPut inst a
  | kvsPairDel => mioKvsPairDel inst a
  | kvsCreateSet => mioKvsCreateSet inst a
  | kvsDelSet => mioKvsDelSet inst a
  | compositeObjCreate => mioCompositeObjCreate inst a
  | compositeObjDel => mioCompositeObjDel inst a
  | compositeObjAddLayers => mioCompositeObjAddLayers inst a
  | compositeObjDelLayers => mioCompositeObjDelLayers inst a
  | compositeObjListLayers => mioCompositeObjListLayers inst a
  | compositeObjAddExtents => mioCompositeObjAddExtents inst a
  | compositeObjDelExtents => mioCompositeObjDelExtents inst a
  | compositeObjGetExtents => mioCompositeObjGetExtents inst a

/-- What validation and the initialisation of the operation say of the arguments and
the instance. -/
def validation : EntryPoint → ℤ
  | objOpen | objCreate | compositeObjCreate => firstError [objInit inst a, mioObjOpInit inst a]
  | objDelete => mioObjOpInit inst a
  | objWritev | objReadv | objSync | objSize =>
      firstError [if a.obj = none ∨ a.op = false then -EINVAL else 0, mioObjOpInit inst a]
  | kvsPairGet | kvsPairNext | kvsPairPut | kvsPairDel | kvsCreateSet | kvsDelSet =>
      kvsOpInit inst a
  | compositeObjDel =>
      firstError [if a.oid = false then -EINVAL else 0, mioObjOpInit inst a]
  | compositeObjAddLayers | compositeObjDelLayers | compositeObjListLayers
  | compositeObjAddExtents | compositeObjDelExtents | compositeObjGetExtents =>
      firstError [objCheck a, mioObjOpInit inst a]

/-- The function of the driver, if it has it. -/
def provided : EntryPoint → Option DrvEnd
  | objOpen => (driverTable inst MioDriver.mdObjOps).bind fun t => t .mooOpen
  | objCreate => (driverTable inst MioDriver.mdObjOps).bind fun t => t .mooCreate
  | objDelete => (driverTable inst MioDriver.mdObjOps).bind fun t => t .mooDelete
  | objWritev => a.obj.join.bind fun t => t .mooWritev
  | objReadv => a.obj.join.bind fun t => t .mooReadv
  | objSync => a.obj.join.bind fun t => t .mooSync
  | objSize => a.obj.join.bind fun t => t .mooSize
  | kvsPairGet => (driverTable inst MioDriver.mdKvsOps).bind fun t => t .mkoGet
  | kvsPairNext => (driverTable inst MioDriver.mdKvsOps).bind fun t => t .mkoNext
  | kvsPairPut => (driverTable inst MioDriver.mdKvsOps).bind fun t => t .mkoPut
  | kvsPairDel => (driverTable inst MioDriver.mdKvsOps).bind fun t => t .mkoDel
  | kvsCreateSet => (driverTable inst MioDriver.mdKvsOps).bind fun t => t .mkoCreateSet
  | kvsDelSet => (driverTable inst MioDriver.mdKvsOps).bind fun t => t .mkoDelSet
  | compositeObjCreate => (driverTable inst MioDriver.mdCompObjOps).bind fun t => t .mcooCreate
  | compositeObjDel => (driverTable inst MioDriver.mdCompObjOps).bind fun t => t .mcooDel
  | compositeObjAddLayers =>
      (driverTable inst MioDriver.mdCompObjOps).bind fun t => t .mcooAddLayers
  | compositeObjDelLayers =>
      (driverTable inst MioDriver.mdCompObjOps).bind fun t => t .mcooDelLayers
  | compositeObjListLayers =>
      (driverTable inst MioDriver.mdCompObjOps).bind fun t => t .mcooListLayers
  | compositeObjAddExtents =>
      (driverTable inst MioDriver.mdCompObjOps).bind fun t => t .mcooAddExtents
  | compositeObjDelExtents =>
      (driverTable inst MioDriver.mdCompObjOps).bind fun t => t .mcooDelExtents
  | compositeObjGetExtents =>
      (driverTable inst MioDriver.mdCompObjOps).bind fun t => t .mcooGetExtents

end EntryPoint

/-- **The law of the entry points.** -/
def Lawful (ep : EntryPoint) : Prop :=
  ∃ rc called, ep.call inst a = .ret rc called ∧
    (ep.validation inst a ≠ 0 → rc = ep.validation inst a ∧ called = none) ∧
    (ep.validation inst a = 0 → ep.provided inst a = none → rc = -EOPNOTSUPP ∧ called = none) ∧
    (ep.validation inst a = 0 → ∀ e, ep.provided inst a = some e → rc = e.rc ∧ called = some e) ∧
    (rc = 0 → ∃ e, called = some e ∧ e.opAdded = true)

variable {inst a}

/-- The shape of all entry points but one. -/
def shape (validation : ℤ) (provided : Option DrvEnd) : CallEnd :=
  if validation ≠ 0 then .ret validation none
  else match provided with
    | none => .crash
    | some e => .ret e.rc (some e)

theorem firstError_singleton (rc : ℤ) : firstError [rc] = rc := by
  by_cases h : rc = 0 <;> simp [firstError, h]

/-- **Of one shape.** -/
theorem call_eq_shape {ep : EntryPoint} (hep : ep ≠ .kvsPairDel) :
    ep.call inst a = shape (ep.validation inst a) (ep.provided inst a) := by
  have hone : ∀ {F : Type} (rc : ℤ) (table : Option (Table F)) (f : F),
      launch [rc] table f = shape rc (table.bind fun t => t f) := by
    intro F rc table f
    rw [launch, firstError_singleton]
    rfl
  cases ep with
  | kvsPairDel => exact absurd rfl hep
  | objDelete => exact hone _ _ _
  | kvsPairGet => exact hone _ _ _
  | kvsPairNext => exact hone _ _ _
  | kvsPairPut => exact hone _ _ _
  | kvsCreateSet => exact hone _ _ _
  | kvsDelSet => exact hone _ _ _
  | _ => rfl

/-- **Lawful calls, for the entry points of this shape**: nothing asks whether the
driver has the function. -/
theorem lawful_iff_of_ne {ep : EntryPoint} (hep : ep ≠ .kvsPairDel) :
    Lawful inst a ep ↔ (ep.validation inst a = 0 → ep.provided inst a ≠ none) := by
  rw [Lawful, call_eq_shape hep, shape.eq_def]
  by_cases hval : ep.validation inst a = 0
  · rw [if_neg (not_not.mpr hval)]
    cases hfn : ep.provided inst a with
    | none => simp [hval]
    | some e =>
      refine iff_of_true ?_ (by simp)
      refine ⟨e.rc, some e, rfl, fun h => absurd hval h, by simp, fun _ e' he' => ?_, fun hrc => ?_⟩
      · obtain rfl := Option.some.inj he'
        exact ⟨rfl, rfl⟩
      · exact ⟨e, rfl, e.added_of_success hrc⟩
  · rw [if_pos hval]
    refine iff_of_true ⟨_, none, rfl, fun _ => ⟨rfl, rfl⟩, fun h => absurd h hval,
      fun h => absurd h hval, fun h => absurd h hval⟩ fun h => absurd h hval

/-- The check of a key-value operation finds `mko_del`. -/
theorem provided_of_kvsOpInit (h : kvsOpInit inst a = 0) :
    ∃ e, EntryPoint.kvsPairDel.provided inst a = some e := by
  have hcheck : ¬kvsDriverCheck inst < 0 := by
    intro hlt
    rw [kvsOpInit, if_pos hlt] at h
    omega
  rw [kvsDriverCheck] at hcheck
  split at hcheck
  · next hlt => exact absurd hlt hcheck
  · split at hcheck
    · exact absurd (show -EOPNOTSUPP < 0 by decide) hcheck
    · next t ht =>
      split at hcheck
      · exact absurd (show -EOPNOTSUPP < 0 by decide) hcheck
      · next hnone =>
        simp only [not_or] at hnone
        obtain ⟨e, he⟩ := Option.ne_none_iff_exists'.mp hnone.2.2.1
        exact ⟨e, by simp only [EntryPoint.provided, ht, Option.bind_some, he]⟩

/-- **Lawful calls of `mio_kvs_pair_del`**: the check may not fail, and neither may the
driver's function. -/
theorem lawful_kvsPairDel_iff :
    Lawful inst a .kvsPairDel ↔
      kvsOpInit inst a = 0 ∧ ∀ e, EntryPoint.kvsPairDel.provided inst a = some e → e.rc = 0 := by
  have hcall : EntryPoint.kvsPairDel.call inst a =
      match EntryPoint.kvsPairDel.provided inst a with
      | none => .crash
      | some e => .ret (kvsOpInit inst a) (some e) := by
    change (match callThrough _ _ with | .crash => CallEnd.crash | .ret _ called => _) = _
    rw [callThrough]
    change (match (match EntryPoint.kvsPairDel.provided inst a with
      | none => CallEnd.crash | some e => .ret e.rc (some e)) with
      | .crash => CallEnd.crash | .ret _ called => .ret (kvsOpInit inst a) called) = _
    cases EntryPoint.kvsPairDel.provided inst a <;> rfl
  rw [Lawful, hcall]
  cases hfn : EntryPoint.kvsPairDel.provided inst a with
  | none =>
    refine iff_of_false (by simp) fun h => ?_
    obtain ⟨e, he⟩ := provided_of_kvsOpInit h.1
    rw [hfn] at he
    exact absurd he (by simp)
  | some e =>
    constructor
    · rintro ⟨rc, called, hret, hval, -, hsome, -⟩
      obtain ⟨rfl, rfl⟩ : kvsOpInit inst a = rc ∧ some e = called := by simpa using hret
      have hzero : kvsOpInit inst a = 0 := by
        by_contra hne
        exact absurd (hval hne).2 (by simp)
      refine ⟨hzero, fun e' he' => ?_⟩
      exact ((hsome hzero e' he').1.symm).trans hzero
    · rintro ⟨hzero, hrc⟩
      refine ⟨_, _, rfl, fun h => absurd hzero h, by simp, fun _ e' he' => ?_, fun _ => ?_⟩
      · obtain rfl := Option.some.inj he'
        exact ⟨hzero.trans (hrc e rfl).symm, rfl⟩
      · exact ⟨e, rfl, e.added_of_success (hrc e rfl)⟩

/-- **Which calls are lawful.** -/
theorem lawful_iff (inst : Option Mio) (a : Args) (ep : EntryPoint) :
    Lawful inst a ep ↔
      if ep = .kvsPairDel then
        ep.validation inst a = 0 ∧ ∀ e, ep.provided inst a = some e → e.rc = 0
      else ep.validation inst a ≠ 0 ∨ ep.provided inst a ≠ none := by
  by_cases hep : ep = .kvsPairDel
  · rw [if_pos hep, hep]
    exact lawful_kvsPairDel_iff
  · rw [if_neg hep, lawful_iff_of_ne hep, imp_iff_not_or]

/-! ### The Motr driver -/

/-- `mio_motr_comp_obj_ops`: there is no `mcoo_del`. -/
def mioMotrCompObjOps (ends : CompFn → DrvEnd) : Table CompFn
  | .mcooDel => none
  | f => some (ends f)

/-- The Motr driver, with `mio_motr_obj_ops` and `mio_motr_kvs_ops`. -/
def mioMotrDriver (obj : ObjFn → DrvEnd) (kvs : KvsFn → DrvEnd) (comp : CompFn → DrvEnd) :
    MioDriver where
  mdSysOps := true
  mdOpOps := true
  mdObjOps := some fun f => some (obj f)
  mdKvsOps := some fun f => some (kvs f)
  mdCompObjOps := some (mioMotrCompObjOps comp)

/-- **Two entry points break the law with the Motr driver**: the one calls a function
that is not there; the other calls a function although a check has failed, and hides
that the function has failed. -/
theorem not_lawful_motr :
    ∃ ok fails : DrvEnd, fails.rc = -ENOMEM ∧
      ¬Lawful (some ⟨some (mioMotrDriver (fun _ => ok) (fun _ => ok) fun _ => ok)⟩)
        ⟨none, true, false, true⟩ .compositeObjDel ∧
      ¬Lawful (some ⟨some (mioMotrDriver (fun _ => ok) (fun _ => ok) fun _ => ok)⟩)
        ⟨none, false, false, true⟩ .kvsPairDel ∧
      ¬Lawful (some ⟨some (mioMotrDriver (fun _ => ok) (fun _ => fails) fun _ => ok)⟩)
        ⟨none, false, true, true⟩ .kvsPairDel := by
  refine ⟨⟨0, true, fun _ => rfl⟩, ⟨-ENOMEM, false, by decide⟩, rfl, ?_, ?_, ?_⟩
  · rw [lawful_iff_of_ne (by decide)]
    decide
  · rw [lawful_kvsPairDel_iff]
    decide
  · rw [lawful_kvsPairDel_iff]
    rintro ⟨-, hrc⟩
    exact absurd (hrc _ rfl) (by decide)

end Entry

end CortxMio
