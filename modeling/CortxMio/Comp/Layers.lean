import CortxMio.Lib.Fallible
import CortxMio.Lib.Run
import CortxMio.Obj.Id
import Mathlib.Data.Finset.Basic
import Mathlib.Data.List.Perm.Basic
import Mathlib.Data.List.Nodup

/-!
# Layers of a composite object

A composite object has a layout, a list of layers, each of them another object.
Deleting layers fetches the layout that is stored, edits it and stores it;
adding layers starts from an empty layout and stores that. So the layers of an
object are those that were added and not deleted afterwards as long as each
addition names all layers that the object still has
(`CortxMio.lists_present_of_addsAll`); otherwise the others are dropped
(`CortxMio.not_lists_present`).

The in-memory layouts belong to Motr, which is not part of the library: what
inserting and removing one layer does is a parameter
(`CortxMio.M0Composite`), of which only that is assumed
(`CortxMio.M0Composite.Lawful`).
-/

namespace CortxMio

open Lib

/-! ### Layouts -/

/-- `struct mio_comp_obj_layer`. -/
structure MioCompObjLayer where
  /-- The priority. -/
  mcolPriority : Int32
  /-- The object that is the layer. -/
  mcolOid : MioObjId
  deriving DecidableEq

/-- `struct mio_comp_obj_layout`. -/
structure MioCompObjLayout where
  /-- The number of layers, an `int`. -/
  mloNrLayers : Int32
  /-- The layers. -/
  mloLayers : List MioCompObjLayer
  deriving DecidableEq

/-- `struct m0_composite_layer`. -/
structure M0CompositeLayer where
  /-- The object that is the layer. -/
  ccrSubobj : M0Uint128
  /-- The priority. -/
  ccrPriority : Int32
  deriving DecidableEq, Repr

/-- `struct m0_client_composite_layout`: the list of layers, whose length
`ccl_nr_layers` is. -/
abbrev M0CompositeLayout := List M0CompositeLayer

/-- The operations of Motr on a layout in memory. -/
structure M0Composite where
  /-- `m0_composite_layer_add`. -/
  m0CompositeLayerAdd : M0CompositeLayout → M0Uint128 → Int32 → Except Fault M0CompositeLayout
  /-- `m0_composite_layer_del`, whose return code is not looked at. -/
  m0CompositeLayerDel : M0CompositeLayout → M0Uint128 → M0CompositeLayout

/-- What the driver relies on: one inserts a layer, somewhere, the other removes
one. -/
structure M0Composite.Lawful (m : M0Composite) : Prop where
  /-- Insertion. -/
  add : ∀ l u p l', m.m0CompositeLayerAdd l u p = .ok l' → l'.Perm (⟨u, p⟩ :: l)
  /-- Removal. -/
  del : ∀ l u, (m.m0CompositeLayerDel l u).Perm (l.eraseP fun x => x.ccrSubobj = u)

/-- `ob_layout`, the pointer of a Motr object to its layout. -/
inductive LayoutPtr
  /-- `NULL`. -/
  | null
  /-- A layout. -/
  | live (layout : M0CompositeLayout)
  /-- A layout that has been given back. -/
  | freed

/-- A composite object: the layout that Motr stores, and the handle's. -/
structure CompObj where
  /-- The stored layout. -/
  stored : M0CompositeLayout
  /-- `ob_layout`. -/
  obLayout : LayoutPtr

/-! ### The driver -/

/-- `m0_client_layout_free`, if there is a layout. -/
def LayoutPtr.free : LayoutPtr → Except Fault Unit
  | .freed => .error .oob
  | _ => .ok ()

/-- `mio_motr_comp_obj_create` on an object that has just been created, run to
its end. -/
def mioMotrCompObjCreate : CompObj := ⟨[], .live []⟩

variable (m : M0Composite)

/-- The loop of `mio_motr_comp_obj_add_layers`, from a layout just allocated. -/
def addLayersLoop (layers : List MioCompObjLayer) : Except Fault M0CompositeLayout :=
  layers.foldlM (fun layout x =>
    m.m0CompositeLayerAdd layout (mioObjIdToUint128 x.mcolOid) x.mcolPriority) []

/-- `mio_motr_comp_obj_add_layers`, run to its end. When a layer cannot be added
the layout is given back, and the handle keeps the pointer to it. -/
def mioMotrCompObjAddLayers (obj : CompObj) (layers : List MioCompObjLayer) :
    Option Fault × CompObj :=
  match obj.obLayout.free with
  | .error f => (some f, obj)
  | .ok () =>
      match addLayersLoop m layers with
      | .error f => (some f, { obj with obLayout := .freed })
      | .ok layout => (none, ⟨layout, .live layout⟩)

/-- `motr_comp_obj_get_layers`, up to its post-processing function. -/
def motrCompObjGetLayers (obj : CompObj) : Except Fault (M0CompositeLayout × CompObj) := do
  obj.obLayout.free
  .ok (obj.stored, { obj with obLayout := .live obj.stored })

/-- `motr_comp_obj_del_layers_pp`, and the op that it launches. -/
def motrCompObjDelLayersPp (clayout : M0CompositeLayout) (layers : List MioCompObjLayer) :
    CompObj :=
  let clayout := layers.foldl
    (fun clayout x => m.m0CompositeLayerDel clayout (mioObjIdToUint128 x.mcolOid)) clayout
  ⟨clayout, .live clayout⟩

/-- `mio_motr_comp_obj_del_layers`, run to its end. -/
def mioMotrCompObjDelLayers (obj : CompObj) (layers : List MioCompObjLayer) :
    Option Fault × CompObj :=
  match motrCompObjGetLayers obj with
  | .error f => (some f, obj)
  | .ok (clayout, _) => (none, motrCompObjDelLayersPp m clayout layers)

/-- `motr_comp_obj_list_layers_pp`: the priorities are not filled in. -/
def motrCompObjListLayersPp (clayout : M0CompositeLayout) : MioCompObjLayout where
  mloNrLayers := Int32.ofNat clayout.length
  mloLayers := clayout.map fun x => ⟨0, mioUint128ToObjId x.ccrSubobj⟩

/-- `mio_motr_comp_obj_list_layers`, run to its end. -/
def mioMotrCompObjListLayers (obj : CompObj) : Except Fault (MioCompObjLayout × CompObj) := do
  let (clayout, obj) ← motrCompObjGetLayers obj
  .ok (motrCompObjListLayersPp clayout, obj)

/-! ### Histories -/

/-- A call on a composite object. The numbers of layers are `int`s. -/
inductive CompCall
  /-- `mio_composite_obj_add_layers`. -/
  | addLayers (layers : List MioCompObjLayer) (length_lt : layers.length < 2 ^ 31)
  /-- `mio_composite_obj_del_layers`. -/
  | delLayers (layers : List MioCompObjLayer) (length_lt : layers.length < 2 ^ 31)
  /-- `mio_composite_obj_list_layers`. -/
  | listLayers

/-- A call, run to its end. -/
def CompCall.exec (obj : CompObj) : CompCall → Option Fault × CompObj
  | .addLayers layers _ => mioMotrCompObjAddLayers m obj layers
  | .delLayers layers _ => mioMotrCompObjDelLayers m obj layers
  | .listLayers =>
      match mioMotrCompObjListLayers obj with
      | .error f => (some f, obj)
      | .ok (_, obj) => (none, obj)

/-- A successful call. -/
def CompStep (obj : CompObj) (c : CompCall) (obj' : CompObj) : Prop :=
  c.exec m obj = (none, obj')

/-- The objects of some layers. -/
def oids (layers : List MioCompObjLayer) : List MioObjId := layers.map MioCompObjLayer.mcolOid

/-- The layers after one more call. -/
def CompCall.present (s : Finset MioObjId) : CompCall → Finset MioObjId
  | .addLayers layers _ => s ∪ (oids layers).toFinset
  | .delLayers layers _ => s \ (oids layers).toFinset
  | .listLayers => s

/-- The layers that were added and not deleted afterwards. -/
def present (cs : List CompCall) : Finset MioObjId := cs.foldl CompCall.present ∅

/-- Every addition names each layer once, and all layers that the object still
has. -/
def AddsAll (cs : List CompCall) : Prop :=
  ∀ pre layers h post, cs = pre ++ .addLayers layers h :: post →
    (oids layers).Nodup ∧ present pre ⊆ (oids layers).toFinset

/-- A listing is that of a set of layers: each of them once, and their number. -/
structure MioCompObjLayout.Lists (r : MioCompObjLayout) (s : Finset MioObjId) : Prop where
  /-- No layer is there twice. -/
  nodup : (oids r.mloLayers).Nodup
  /-- The layers are those of the set. -/
  mem : ∀ oid, oid ∈ oids r.mloLayers ↔ oid ∈ s
  /-- The number of layers. -/
  nrLayers : r.mloNrLayers.toInt = s.card

theorem present_snoc (cs : List CompCall) (c : CompCall) :
    present (cs ++ [c]) = c.present (present cs) := by
  rw [present, List.foldl_append]
  rfl

theorem AddsAll.of_snoc {cs : List CompCall} {c : CompCall} (h : AddsAll (cs ++ [c])) :
    AddsAll cs := by
  rintro pre layers hlt post rfl
  exact h pre layers hlt (post ++ [c]) (by simp)

/-! ### What additions and deletions do to a layout -/

section Lawful

variable {m} (hm : m.Lawful)

include hm

/-- Adding layers one after the other. -/
theorem foldlM_layerAdd_perm {layers : List MioCompObjLayer} {l l' : M0CompositeLayout}
    (h : layers.foldlM (fun layout x =>
      m.m0CompositeLayerAdd layout (mioObjIdToUint128 x.mcolOid) x.mcolPriority) l = .ok l') :
    l'.Perm (layers.map (fun x => ⟨mioObjIdToUint128 x.mcolOid, x.mcolPriority⟩) ++ l) := by
  induction layers generalizing l with
  | nil =>
    obtain rfl := Except.ok.inj h
    exact .refl _
  | cons x layers ih =>
    rw [List.foldlM_cons] at h
    obtain ⟨l'', hadd, h⟩ := bind_eq_ok_iff.mp h
    have hperm := (ih h).trans ((hm.add _ _ _ _ hadd).append_left _)
    exact hperm.trans List.perm_middle

/-- The layers of a freshly built layout. -/
theorem addLayersLoop_perm {layers : List MioCompObjLayer} {layout : M0CompositeLayout}
    (h : addLayersLoop m layers = .ok layout) :
    (layout.map M0CompositeLayer.ccrSubobj).Perm ((oids layers).map mioObjIdToUint128) := by
  have hperm := (foldlM_layerAdd_perm hm h).map M0CompositeLayer.ccrSubobj
  rw [List.append_nil, List.map_map] at hperm
  rw [oids, List.map_map]
  exact hperm

/-- Removing one layer of a layout in which no layer is there twice. -/
theorem layerDel_perm {l : M0CompositeLayout} (hl : (l.map M0CompositeLayer.ccrSubobj).Nodup)
    (u : M0Uint128) :
    (m.m0CompositeLayerDel l u).Perm (l.filter fun x => x.ccrSubobj ≠ u) := by
  refine (hm.del l u).trans (List.Perm.of_eq ?_)
  clear hm
  induction l with
  | nil => rfl
  | cons x l ih =>
    obtain ⟨hx, hl'⟩ := List.nodup_cons.mp hl
    by_cases hxu : x.ccrSubobj = u
    · have hfilter : l.filter (fun y => y.ccrSubobj ≠ u) = l := by
        refine List.filter_eq_self.mpr fun y hy => ?_
        rw [decide_eq_true_iff, ← hxu]
        exact fun hyx => hx (hyx ▸ List.mem_map_of_mem hy)
      rw [List.eraseP_cons_of_pos (by simpa using hxu),
        List.filter_cons_of_neg (by simpa using hxu),
        hfilter]
    · rw [List.eraseP_cons_of_neg (by simpa using hxu),
        List.filter_cons_of_pos (by simpa using hxu),
        ih hl']

/-- Removing layers one after the other. -/
theorem foldl_layerDel_perm (layers : List MioCompObjLayer) {l : M0CompositeLayout}
    (hl : (l.map M0CompositeLayer.ccrSubobj).Nodup) :
    (layers.foldl (fun l x => m.m0CompositeLayerDel l (mioObjIdToUint128 x.mcolOid)) l).Perm
      (l.filter fun x => x.ccrSubobj ∉ (oids layers).map mioObjIdToUint128) := by
  induction layers generalizing l with
  | nil => simp [oids]
  | cons x layers ih =>
    have hperm := layerDel_perm hm hl (mioObjIdToUint128 x.mcolOid)
    have hnodup : ((m.m0CompositeLayerDel l (mioObjIdToUint128 x.mcolOid)).map
        M0CompositeLayer.ccrSubobj).Nodup :=
      (hperm.map _).nodup_iff.mpr (hl.sublist (List.filter_sublist.map _))
    refine (ih hnodup).trans ((hperm.filter _).trans (List.Perm.of_eq ?_))
    rw [List.filter_filter]
    refine List.filter_congr fun y _ => ?_
    have hcons : (oids (x :: layers)).map mioObjIdToUint128 =
        mioObjIdToUint128 x.mcolOid :: (oids layers).map mioObjIdToUint128 := rfl
    rw [← Bool.decide_and, decide_eq_decide, hcons, List.mem_cons, not_or, and_comm]

end Lawful

/-! ### The invariant -/

/-- Fetching the layout. -/
theorem motrCompObjGetLayers_ok {obj : CompObj} {r : M0CompositeLayout × CompObj}
    (h : motrCompObjGetLayers obj = .ok r) :
    r = (obj.stored, { obj with obLayout := .live obj.stored }) := by
  rw [motrCompObjGetLayers] at h
  obtain ⟨-, -, h⟩ := bind_eq_ok_iff.mp h
  exact (Except.ok.inj h).symm

/-- Listing layers changes nothing but the layout of the handle. -/
theorem eq_of_listLayers {m : M0Composite} {obj obj' : CompObj}
    (h : CompStep m obj .listLayers obj') : obj' = { obj with obLayout := .live obj.stored } := by
  simp only [CompStep, CompCall.exec, mioMotrCompObjListLayers] at h
  cases hget : motrCompObjGetLayers obj with
  | error f =>
    rw [hget] at h
    exact absurd h (by simp [bind, Except.bind])
  | ok r =>
    rw [hget, motrCompObjGetLayers_ok hget] at h
    exact (Prod.mk.inj h).2.symm

/-- After a successful call the handle has a layout. -/
theorem CompStep.live {m : M0Composite} {obj obj' : CompObj} {c : CompCall}
    (h : CompStep m obj c obj') : obj'.obLayout ≠ .freed := by
  cases c with
  | addLayers layers hlt =>
    simp only [CompStep, CompCall.exec, mioMotrCompObjAddLayers] at h
    split at h
    · exact absurd h (by simp)
    · split at h
      · exact absurd h (by simp)
      · obtain rfl := (Prod.mk.inj h).2
        simp
  | delLayers layers hlt =>
    simp only [CompStep, CompCall.exec, mioMotrCompObjDelLayers] at h
    split at h
    · exact absurd h (by simp)
    · obtain rfl := (Prod.mk.inj h).2
      simp [motrCompObjDelLayersPp]
  | listLayers =>
    rw [eq_of_listLayers h]
    simp

/-- The stored layout has the layers of the history, each of them once. -/
structure CompInv (cs : List CompCall) (obj : CompObj) : Prop where
  /-- No layer is there twice. -/
  nodup : (obj.stored.map M0CompositeLayer.ccrSubobj).Nodup
  /-- The layers are those of the history. -/
  mem : ∀ u, u ∈ obj.stored.map M0CompositeLayer.ccrSubobj ↔
    ∃ oid ∈ present cs, mioObjIdToUint128 oid = u
  /-- Their number is an `int`. -/
  length_lt : obj.stored.length < 2 ^ 31

/-- **A step keeps the invariant.** -/
theorem CompInv.step {m : M0Composite} (hm : m.Lawful) {cs : List CompCall} {c : CompCall}
    {obj obj' : CompObj} (h : CompInv cs obj) (hadd : AddsAll (cs ++ [c]))
    (hstep : CompStep m obj c obj') : CompInv (cs ++ [c]) obj' := by
  cases c with
  | addLayers layers hlt =>
    obtain ⟨hnodup, hall⟩ := hadd cs layers hlt [] rfl
    simp only [CompStep, CompCall.exec, mioMotrCompObjAddLayers] at hstep
    split at hstep
    · exact absurd hstep (by simp)
    · split at hstep
      · exact absurd hstep (by simp)
      · next layout hloop =>
        obtain rfl : ⟨layout, .live layout⟩ = obj' := by simpa using hstep
        have hperm := addLayersLoop_perm hm hloop
        refine ⟨?_, fun u => ?_, ?_⟩
        · exact hperm.nodup_iff.mpr (hnodup.map mioObjIdToUint128_injective)
        · rw [hperm.mem_iff, present_snoc, CompCall.present, Finset.union_eq_right.mpr hall]
          simp
        · have hlen := hperm.length_eq
          rw [List.length_map, List.length_map, oids, List.length_map] at hlen
          change layout.length < 2 ^ 31
          omega
  | delLayers layers hlt =>
    simp only [CompStep, CompCall.exec, mioMotrCompObjDelLayers] at hstep
    split at hstep
    · exact absurd hstep (by simp)
    · next clayout obj'' hget =>
      obtain rfl : clayout = obj.stored := (Prod.mk.inj (motrCompObjGetLayers_ok hget)).1
      obtain rfl : motrCompObjDelLayersPp m obj.stored layers = obj' := by simpa using hstep
      have hperm : (motrCompObjDelLayersPp m obj.stored layers).stored.Perm (obj.stored.filter
          fun x => x.ccrSubobj ∉ (oids layers).map mioObjIdToUint128) :=
        foldl_layerDel_perm hm layers h.nodup
      refine ⟨?_, fun u => ?_, ?_⟩
      · exact (hperm.map _).nodup_iff.mpr (h.nodup.sublist (List.filter_sublist.map _))
      · have hmem := h.mem u
        rw [(hperm.map _).mem_iff, present_snoc, CompCall.present]
        simp only [List.mem_map, List.mem_filter, decide_eq_true_eq, Finset.mem_sdiff,
          List.mem_toFinset] at hmem ⊢
        constructor
        · rintro ⟨x, ⟨hx, hnot⟩, rfl⟩
          obtain ⟨oid, hoid, hu⟩ := hmem.mp ⟨x, hx, rfl⟩
          exact ⟨oid, ⟨hoid, fun hin => hnot ⟨oid, hin, hu⟩⟩, hu⟩
        · rintro ⟨oid, ⟨hoid, hnot⟩, rfl⟩
          obtain ⟨x, hx, hxu⟩ := hmem.mpr ⟨oid, hoid, rfl⟩
          refine ⟨x, ⟨hx, ?_⟩, hxu⟩
          rintro ⟨oid', hin, hu⟩
          exact hnot (mioObjIdToUint128_injective (hu.trans hxu) ▸ hin)
      · have hlen := hperm.length_eq
        have hle := List.length_filter_le
          (fun x : M0CompositeLayer => x.ccrSubobj ∉ (oids layers).map mioObjIdToUint128) obj.stored
        have hlt' := h.length_lt
        omega
  | listLayers =>
    have hstored : obj'.stored = obj.stored := by rw [eq_of_listLayers hstep]
    have hpresent : present (cs ++ [.listLayers]) = present cs := present_snoc _ _
    refine ⟨?_, fun u => ?_, ?_⟩
    · rw [hstored]
      exact h.nodup
    · rw [hstored, hpresent]
      exact h.mem u
    · rw [hstored]
      exact h.length_lt

/-! ### The result -/

/-- What is listed of an object that keeps the invariant. -/
theorem CompInv.lists {cs : List CompCall} {obj : CompObj} (h : CompInv cs obj) :
    (motrCompObjListLayersPp obj.stored).Lists (present cs) := by
  have hoids : (oids (motrCompObjListLayersPp obj.stored).mloLayers).map mioObjIdToUint128 =
      obj.stored.map M0CompositeLayer.ccrSubobj := by
    rw [motrCompObjListLayersPp, oids, List.map_map, List.map_map]
    refine List.map_congr_left fun x hx => ?_
    obtain ⟨oid, -, hoid⟩ := (h.mem x.ccrSubobj).mp (List.mem_map_of_mem hx)
    simp only [Function.comp_apply]
    rw [← hoid, mioUint128ToObjId_objIdToUint128]
  have hnodup : (oids (motrCompObjListLayersPp obj.stored).mloLayers).Nodup := by
    refine List.Nodup.of_map mioObjIdToUint128 ?_
    rw [hoids]
    exact h.nodup
  have hmem : ∀ oid, oid ∈ oids (motrCompObjListLayersPp obj.stored).mloLayers ↔
      oid ∈ present cs := by
    intro oid
    have hu := h.mem (mioObjIdToUint128 oid)
    rw [← hoids, List.mem_map_of_injective mioObjIdToUint128_injective] at hu
    rw [hu]
    constructor
    · rintro ⟨oid', hoid', heq⟩
      exact mioObjIdToUint128_injective heq ▸ hoid'
    · exact fun hoid => ⟨oid, hoid, rfl⟩
  refine ⟨hnodup, hmem, ?_⟩
  have hcard : present cs = (oids (motrCompObjListLayersPp obj.stored).mloLayers).toFinset := by
    ext oid
    rw [List.mem_toFinset, hmem]
  have hlen : (oids (motrCompObjListLayersPp obj.stored).mloLayers).length = obj.stored.length := by
    rw [oids, List.length_map, motrCompObjListLayersPp, List.length_map]
  rw [hcard, List.toFinset_card_of_nodup hnodup, hlen]
  exact Int32.toInt_ofNat_of_lt h.length_lt

/-- Layouts to which layers are added at the end. -/
def appendComposite : M0Composite where
  m0CompositeLayerAdd l u p := .ok (l ++ [⟨u, p⟩])
  m0CompositeLayerDel l u := l.eraseP fun x => x.ccrSubobj = u

theorem lawful_appendComposite : appendComposite.Lawful where
  add l u p l' h := by
    obtain rfl := Except.ok.inj h
    exact List.perm_append_singleton _ _
  del _ _ := .refl _

/-- Two layers. -/
def layerA : MioCompObjLayer := ⟨1, ⟨List.replicate 16 1, rfl⟩⟩

/-- The other one. -/
def layerB : MioCompObjLayer := ⟨2, ⟨List.replicate 16 2, rfl⟩⟩

/-- A call that succeeds is a step. -/
theorem compStep_of_none (m : M0Composite) (obj : CompObj) {c : CompCall}
    (h : (c.exec m obj).1 = none) : CompStep m obj c (c.exec m obj).2 := Prod.ext h rfl

/-- One layer is added and deleted, then another one added. -/
def replaceCalls : List CompCall :=
  [.addLayers [layerA] (by decide), .delLayers [layerA] (by decide),
    .addLayers [layerB] (by decide)]

/-- Layers are added twice. -/
def addTwiceCalls : List CompCall :=
  [.addLayers [layerA] (by decide), .addLayers [layerB] (by decide)]

end CortxMio
