import CortxMio.Obj.Sparse
import CortxMio.Obj.Store

/-!
# What the calls on a store do

For each call of `Obj/Store.lean` one statement: what it returns and makes of the store if
it succeeds, and what it may have made of it if it fails or is cut off. A read never
changes the store (`CortxMio.triple_readv`), a write that succeeds is the write of
`Obj/Sparse.lean` (`CortxMio.triple_writev`), and whatever happens no call touches
another object than its own (`CortxMio.MotrStore.OnlyAt`).
-/

namespace CortxMio

open Lib

/-! ### Stores -/

/-- The two stores have the same at an object. -/
def MotrStore.SameAt (m m' : MotrStore) (oid : MioObjId) : Prop :=
  m'.entities oid = m.entities oid ∧ m'.attrs oid = m.attrs oid

/-- The two stores differ at one object at most. -/
def MotrStore.OnlyAt (oid : MioObjId) (m m' : MotrStore) : Prop :=
  ∀ o, o ≠ oid → m.SameAt m' o

section Stores

variable {m m' m'' : MotrStore} {oid o : MioObjId} {e : M0Entity}

theorem MotrStore.SameAt.refl (m : MotrStore) (o : MioObjId) : m.SameAt m o := ⟨rfl, rfl⟩

theorem MotrStore.SameAt.trans (h : m.SameAt m' o) (h' : m'.SameAt m'' o) : m.SameAt m'' o :=
  ⟨h'.1.trans h.1, h'.2.trans h.2⟩

theorem MotrStore.OnlyAt.refl (oid : MioObjId) (m : MotrStore) : m.OnlyAt oid m :=
  fun o _ => .refl m o

theorem MotrStore.OnlyAt.trans (h : m.OnlyAt oid m') (h' : m'.OnlyAt oid m'') :
    m.OnlyAt oid m'' := fun o ho => (h o ho).trans (h' o ho)

theorem MotrStore.onlyAt_setEntity (m : MotrStore) (oid : MioObjId) (e : Option M0Entity) :
    m.OnlyAt oid (m.setEntity oid e) := fun _ ho => ⟨Function.update_of_ne ho _ _, rfl⟩

theorem MotrStore.onlyAt_setAttrs (m : MotrStore) (oid : MioObjId) (val : Option (List Byte)) :
    m.OnlyAt oid (m.setAttrs oid val) := fun _ ho => ⟨rfl, Function.update_of_ne ho _ _⟩

theorem MotrStore.onlyAt_setCluster (m : MotrStore) (oid : MioObjId) (e : M0Entity)
    (cl : Cluster) : m.OnlyAt oid (m.setCluster oid e cl) :=
  (m.onlyAt_setEntity oid _).trans (MotrStore.onlyAt_setAttrs _ oid _)

@[simp] theorem MotrStore.entities_setEntity (m : MotrStore) (oid : MioObjId)
    (e : Option M0Entity) : (m.setEntity oid e).entities oid = e := Function.update_self ..

@[simp] theorem MotrStore.attrs_setEntity (m : MotrStore) (oid : MioObjId)
    (e : Option M0Entity) : (m.setEntity oid e).attrs = m.attrs := rfl

@[simp] theorem MotrStore.entities_setAttrs (m : MotrStore) (oid : MioObjId)
    (val : Option (List Byte)) : (m.setAttrs oid val).entities = m.entities := rfl

@[simp] theorem MotrStore.attrs_setAttrs (m : MotrStore) (oid : MioObjId)
    (val : Option (List Byte)) : (m.setAttrs oid val).attrs oid = val := Function.update_self ..

@[simp] theorem MotrStore.entities_setCluster (m : MotrStore) (oid : MioObjId) (e : M0Entity)
    (cl : Cluster) : (m.setCluster oid e cl).entities oid = some { e with bytes := cl.bytes } :=
  Function.update_self ..

@[simp] theorem MotrStore.attrs_setCluster (m : MotrStore) (oid : MioObjId) (e : M0Entity)
    (cl : Cluster) : (m.setCluster oid e cl).attrs oid = cl.attrs := Function.update_self ..

/-- An op that leaves its object as it has found it. -/
theorem MotrStore.setCluster_cluster (h : m.entities oid = some e) :
    m.setCluster oid e (m.cluster oid e) = m := by
  simp only [setCluster, setEntity, setAttrs, cluster, ← h, Function.update_eq_self]

end Stores

/-! ### Ops -/

/-- The store is the one given. -/
def At (m : MotrStore) (s : Sys) : Prop := s.store = m

section Ops

variable {env : Env} {m : MotrStore}

/-- Fix the store a program starts with. -/
theorem triple_of_store {α : Type} {P : MotrStore → Prop} {p : StoreM α} {Q : α → Sys → Prop}
    {C : Sys → Prop} (h : ∀ m, P m → Triple (At m) p Q C) : Triple (fun s => P s.store) p Q C :=
  fun s hs => h s.store hs s rfl

theorem triple_ask {α : Type} {answer : ℕ → α} {C : Sys → Prop} :
    Triple (At m) (ask answer) (fun a s => (∃ t, answer t = a) ∧ At m s) C :=
  fun s hs => ⟨⟨s.tick, rfl⟩, hs⟩

/-- Something goes wrong in these surroundings: a Motr op is not finished, or there is no
memory. -/
def Env.Rough (env : Env) : Prop := (∃ t, env.verdict t ≠ .stable) ∨ ∃ t, env.malloc t = none

/-- **A Motr op**: it has been executed, or it fails or the process is gone. -/
theorem triple_motrOp (run : MotrStore → ℤ × MotrStore)
    (left : Leftover → MotrStore → MotrStore) :
    Triple (At m) (motrOp env run left)
      (fun rc s => (rc = (run m).1 ∧ At (run m).2 s) ∨
        (rc < 0 ∧ env.Rough) ∧ ∃ l, At (left l m) s)
      (fun s => env.Rough ∧ ∃ l, At (left l m) s) := by
  refine Triple.bind triple_ask fun v => Triple.of_fact fun hv => Triple.get_bind fun s hs => ?_
  obtain ⟨t, hv⟩ := hv
  have hstore : s.store = m := hs
  have hrough : v ≠ .stable → env.Rough := fun h => Or.inl ⟨t, hv ▸ h⟩
  cases v with
  | stable => exact fun t ht => Or.inl ⟨by rw [← hstore], by rw [← hstore]; rfl⟩
  | failed rc neg l =>
    exact fun t ht => Or.inr ⟨⟨neg, hrough (by simp)⟩, l, by rw [← hstore]; rfl⟩
  | killed l => exact fun t ht => ⟨hrough (by simp), l, by rw [← hstore]; rfl⟩

end Ops

/-! ### Chains -/

section Chains

variable {env : Env} {m : MotrStore} {h : ObjHandle} {e : M0Entity} {op : RwOp}

/-- The start of a chain. -/
def chainStart (m : MotrStore) (h : ObjHandle) (e : M0Entity) (op : RwOp) : IoState :=
  ⟨m.cluster h.moId e, h.obj, op⟩

/-- What is returned after a chain that has ended in `io`: it has run to its end, or a
Motr op has failed. -/
structure ChainDone (env : Env) (m : MotrStore) (h : ObjHandle) (e : M0Entity)
    (last io : IoState) (r : ℤ × ObjHandle × Mem) (s : Sys) : Prop where
  /-- Motr has what the chain has left. -/
  store : At (m.setCluster h.moId e io.cluster) s
  /-- The handle. -/
  handle : r.2.1 = { h with obj := io.obj }
  /-- Memory. -/
  mem : r.2.2 = io.op.mem
  /-- The return code. -/
  rc : (r.1 < 0 ∧ env.Rough) ∨ r.1 = 0 ∧ io = last

/-- What a chain leaves behind that is cut off. -/
def ChainCut (env : Env) (m : MotrStore) (h : ObjHandle) (e : M0Entity) (J : IoState → Prop)
    (s : Sys) : Prop :=
  env.Rough ∧ ∃ io, J io ∧ At (m.setCluster h.moId e io.cluster) s

/-- The chain of an op has come to `io`, and may go on for `n` turns. -/
def ChainAt (env : Env) (m : MotrStore) (h : ObjHandle) (e : M0Entity) (op : RwOp) (n : ℕ)
    (io : IoState) : Prop :=
  ∃ k, k + n = chainBound op.args ∧ after (chainStep env.conf) (chainStart m h e op) k = some io

section Rule

variable {I J : IoState → Prop} {last : IoState}
  (hnext : ∀ s s', I s → chainStep env.conf s = .inl s' → I s')
  (hleft : ∀ s l, I s → J (s.left l))
  (hrun : runChain env.conf (chainStart m h e op) = some (none, last))

include hnext hleft hrun

/-- A turn of a chain. -/
theorem triple_chainRound (hlast : J last) {n : ℕ} {io : IoState} (hI : I io)
    (hat : ChainAt env m h e op (n + 1) io) :
    Triple (At m) (chainRound env h.moId e io)
      (Sum.elim (fun io' s => (I io' ∧ ChainAt env m h e op n io') ∧ At m s)
        (fun r s => (J r.2 ∧ ((r.1 < 0 ∧ env.Rough) ∨ r.1 = 0 ∧ r.2 = last)) ∧ At m s))
      (ChainCut env m h e J) := by
  obtain ⟨k, hk, hat⟩ := hat
  refine Triple.bind triple_ask fun v => Triple.of_fact fun hv => Triple.get_bind fun s hs => ?_
  obtain ⟨t, hv⟩ := hv
  have hstore : s.store = m := hs
  have hrough : v ≠ .stable → env.Rough := fun h => Or.inl ⟨t, hv ▸ h⟩
  cases v with
  | failed rc neg l =>
    exact Triple.pure fun t ht => ⟨⟨hleft io l hI, Or.inl ⟨neg, hrough (by simp)⟩⟩, ht ▸ hs⟩
  | killed l =>
    exact fun t ht => ⟨hrough (by simp), io.left l, hleft io l hI, by rw [← hstore]; rfl⟩
  | stable =>
    cases hstep : chainStep env.conf io with
    | inl io' =>
      dsimp only
      exact Triple.pure fun t ht =>
        ⟨⟨hnext io io' hI hstep, k + 1, by omega, after_succ hat hstep⟩, ht ▸ hs⟩
    | inr r =>
      -- the chain ends where it ends if all goes well
      obtain ⟨k', hstops⟩ := stops_of_loopN hrun
      obtain rfl : r = (none, last) := (Stops.unique ⟨io, hat, hstep⟩ hstops).2
      exact Triple.pure fun t ht => ⟨⟨hlast, Or.inr ⟨rfl, rfl⟩⟩, ht ▸ hs⟩

/-- **The rule for chains** that come to an end if all goes well: an invariant of the
turns, and what it says about a turn that is not finished. -/
theorem triple_runOp (he : m.entities h.moId = some e) (h0 : I (chainStart m h e op))
    (hlast : J last) (mem : Mem) :
    Triple (At m) (runOp env h mem (.ok op))
      (fun r s => ∃ io, J io ∧ ChainDone env m h e last io r s) (ChainCut env m h e J) := by
  refine Triple.get_bind fun s hs => ?_
  have hstore : s.store = m := hs
  subst hstore
  simp only [he]
  refine Triple.bind (Triple.consequence (Triple.repeatN_rounds
    (fun n io t => (I io ∧ ChainAt env s.store h e op n io) ∧ At s.store t)
    (fun n io => Triple.of_fact fun hI => triple_chainRound hnext hleft hrun hlast hI.1 hI.2)
    ?_ (chainBound op.args) (chainStart s.store h e op)) ?_ (fun _ _ hq => hq) fun _ hc => hc) ?_
  · rintro io t ⟨⟨-, k, hk, hat⟩, -⟩
    obtain ⟨k', hlt, hstops⟩ := stops_lt_of_loopN hrun
    have hle := Stops.le hstops hat
    exact absurd (show k' < k from hlt.trans_eq hk.symm) (by omega)
  · rintro t rfl
    exact ⟨⟨h0, 0, Nat.zero_add _, rfl⟩, rfl⟩
  · rintro ⟨rc, io⟩ t ⟨⟨hJ, hrc⟩, ht⟩
    have ht : t.store = s.store := ht
    exact ⟨io, hJ, by rw [← ht]; rfl, rfl, rfl, hrc⟩

end Rule

end Chains

/-! ### Handles -/

/-- The geometry leaves room for a page in an op. -/
def DrvFits (conf : MioMotrConfig) (drv : M0Obj) (limit : ℕ) : Prop :=
  motrObjMaxSizePerOp conf (.zeroed drv) = .ok limit ∧ motrObjIoPagesize (.zeroed drv) ≤ limit

/-- The handle has been opened on an object of the store. -/
structure ObjHandle.On (h : ObjHandle) (m : MotrStore) (e : M0Entity) : Prop where
  /-- The object is there. -/
  entity : m.entities h.moId = some e
  /-- Its geometry. -/
  drv : h.obj.moDrvObj = e.drv
  /-- Its pool. -/
  pool : h.pool = e.pool
  /-- The maps of hints. -/
  hints : h.obj.HintsOk

section Handles

variable {h : ObjHandle} {m : MotrStore} {e : M0Entity} {conf : MioMotrConfig} {limit : ℕ}

theorem DrvFits.max {obj : MioObj} (hfit : DrvFits conf e.drv limit)
    (hdrv : obj.moDrvObj = e.drv) : motrObjMaxSizePerOp conf obj = .ok limit :=
  (motrObjMaxSizePerOp_congr conf (show obj.moDrvObj = (MioObj.zeroed e.drv).moDrvObj from
    hdrv)).trans hfit.1

theorem DrvFits.page {obj : MioObj} (hfit : DrvFits conf e.drv limit)
    (hdrv : obj.moDrvObj = e.drv) : motrObjIoPagesize obj ≤ limit :=
  (motrObjIoPagesize_congr (show obj.moDrvObj = (MioObj.zeroed e.drv).moDrvObj from
    hdrv)).trans_le hfit.2

/-- Statistics are not what a handle is opened with. -/
theorem ObjHandle.On.stats (hon : h.On m e) (isWrite : Bool) (now : UInt64)
    (iov : List (MioIovec ℕ)) :
    ({ h with obj := objStatsUpdate h.obj isWrite now iov } : ObjHandle).On m e :=
  ⟨hon.entity, hon.drv, hon.pool, hon.hints.hints, hon.hints.nrEntries, hon.hints.phints⟩

end Handles

/-! ### Reads -/

section Reads

variable {env : Env} {m : MotrStore} {h : ObjHandle} {e : M0Entity} {limit : ℕ}

/-- What a read has returned. -/
structure ReadBack (env : Env) (h : ObjHandle) (e : M0Entity) (app : ℕ → Byte)
    (iov : List (MioIovec ℕ)) (r : ℤ × ObjHandle × (ℕ → Byte)) : Prop where
  /-- The handle has its statistics changed. -/
  handle : ∃ now, r.2.1 = { h with obj := objStatsUpdate h.obj false now iov }
  /-- It fails, or the buffers are filled. -/
  filled : (r.1 < 0 ∧ env.Rough) ∨ r.1 = 0 ∧
    (∀ v ∈ iov, ∀ i < v.miovLen, r.2.2 (v.miovBase + i) = e.bytes (v.miovOff + i)) ∧
    ∀ a, (∀ v ∈ iov, ¬v.BufHas a) → r.2.2 a = app a

/-- **A read changes nothing**, whatever becomes of it, and if it succeeds it has filled
its buffers. -/
theorem triple_readv (hon : h.On m e) (hfit : DrvFits env.conf e.drv limit) (app : ℕ → Byte)
    {iov : List (MioIovec ℕ)} (hok : RangesOk iov) (hbuf : iov.Pairwise MioIovec.BufApart)
    (hne : iov ≠ []) :
    Triple (At m) (mioObjReadvOp env h app iov)
      (fun r s => ReadBack env h e app iov r ∧ At m s) (fun s => env.Rough ∧ At m s) := by
  refine Triple.bind triple_ask fun now => Triple.of_fact fun _ => ?_
  have hon' := hon.stats false now iov
  have hmax := hfit.max hon'.drv
  have hpage := hfit.page hon'.drv
  obtain ⟨v, hv⟩ := List.exists_mem_of_ne_nil iov hne
  obtain ⟨op, io, hsub, hrun, hcl, hobj, hbytes, hrest⟩ := readv_completes
    (objStatsUpdate h.obj false now iov) hmax hpage (m.cluster h.moId e) app ⟨v, hv, hok.pos v hv⟩
    hok.noWrap hbuf
  simp only [hsub]
  -- whatever turn the chain is at, the object and the handle are those it has started with
  have hchain := triple_runOp (h := { h with obj := objStatsUpdate h.obj false now iov })
    (I := fun s => s.cluster = m.cluster h.moId e ∧ s.obj = objStatsUpdate h.obj false now iov ∧
      s.op.IsRead)
    (J := fun s => s.cluster = m.cluster h.moId e ∧ s.obj = objStatsUpdate h.obj false now iov)
    ?_ ?_ hrun hon.entity ⟨rfl, rfl, isRead_of_mioMotrObjReadv hsub⟩ ⟨hcl, hobj⟩ (Mem.init app)
  · refine Triple.bind (hchain.consequence (fun _ hs => hs) (fun _ _ hq => hq) ?_) ?_
    · rintro s ⟨hrough, io', ⟨hcl', -⟩, hs⟩
      have hs : s.store = m.setCluster h.moId e io'.cluster := hs
      rw [hcl', MotrStore.setCluster_cluster hon.entity] at hs
      exact ⟨hrough, hs⟩
    · rintro ⟨rc, h', mem⟩
      refine Triple.pure ?_
      rintro s ⟨io', ⟨hcl', hobj'⟩, hdone⟩
      obtain ⟨hs, hh, hmem, hrc⟩ := hdone
      have hs : s.store = m.setCluster h.moId e io'.cluster := hs
      rw [hcl', MotrStore.setCluster_cluster hon.entity] at hs
      refine ⟨⟨⟨now, ?_⟩, ?_⟩, hs⟩
      · simp only at hh
        rw [hh, hobj']
      · refine hrc.imp id ?_
        rintro ⟨hzero, rfl⟩
        simp only at hmem
        simp only [hmem]
        exact ⟨hzero, hbytes, hrest⟩
  · rintro s s' ⟨hcl, hobj, hread⟩ hstep
    have hturn := chainStep_isRead env.conf hread
    rw [hstep] at hturn
    exact ⟨hturn.1.trans hcl, hturn.2.1.trans hobj, hturn.2.2⟩
  · rintro s l ⟨hcl, hobj, -, ext, hop⟩
    simp only [IoState.left, hop]
    exact ⟨hcl, hobj⟩

end Reads

/-! ### Writes -/

section Within

variable {obj : MioObj} {max : ℕ} {app : ℕ → Byte} {iov : List (MioIovec ℕ)} {bytes : ℕ → Byte}

/-- What a write makes of its ranges and of the bytes below the size, whatever there is
beyond. -/
theorem bytesEnd_eq_writeRanges_within (hpos : 0 < max) (hord : InOrder (writeSorted iov))
    (hcnt : (writeCtx obj max app iov bytes).rbw.length ≤ (writeCtx obj max app iov bytes).cnt)
    {x : ℕ} (hown : (writeCtx obj max app iov bytes).Own x)
    (hx : x < obj.size ∨ CoversByte iov x) :
    (writeCtx obj max app iov bytes).bytesEnd x = writeRanges app iov bytes x := by
  rw [bytesEnd_eq_planBytes]
  by_cases hcov : CoversByte iov x
  · exact planBytes_of_mem readsPages_first hpos hord hcov bytes
  · have hsize := hx.resolve_right hcov
    have hno : ∀ v ∈ iov, ¬v.Has x := fun v hv hvx => hcov ⟨v, hv, hvx⟩
    rw [writeRanges_of_not_mem hno]
    obtain ⟨q, hq, h1, h2⟩ := exists_page_of_planHas hpos hord hown (not_has_of_not_mem hno)
    rw [planBytes_of_page readsPages_first hpos hord hq h1 h2 (not_has_of_not_mem hno),
      List.take_of_length_le hcnt]
    split
    · rfl
    · next hmem =>
      -- a page that starts below the size and is not read is filled by the ranges
      have hq' : q * motrObjIoPagesize obj < obj.size := by omega
      obtain ⟨p, hp, hpx⟩ := (exists_mem_rbwKept (List.mem_filter.mpr
        ⟨hq, by simpa using hq'⟩)).resolve_left hmem (x - q * motrObjIoPagesize obj) (by omega)
      rw [show q * motrObjIoPagesize obj + (x - q * motrObjIoPagesize obj) = x by omega] at hpx
      exact absurd hpx (not_has_of_not_mem hno p (mem_parts.mp hp).1)

end Within

section Writes

variable {env : Env} {m : MotrStore} {h : ObjHandle} {e : M0Entity} {limit : ℕ}

/-- A write to an object has left this. -/
def Wrote (m : MotrStore) (oid : MioObjId) (e : M0Entity) (m' : MotrStore) : Prop :=
  ∃ cl : Cluster, RecordOk cl.attrs ∧ m' = m.setCluster oid e cl

/-- What a write has made of the object and its handle, if it has succeeded. -/
structure WrittenBack (h : ObjHandle) (m : MotrStore) (e : M0Entity) (app : ℕ → Byte)
    (iov : List (MioIovec ℕ)) (h' : ObjHandle) (cl : Cluster) : Prop where
  /-- The size in the handle. -/
  size : h'.obj.size = max h.obj.size (maxEnd iov)
  /-- The size in the record, if it was right or the object has grown. -/
  stored : storedSize (m.attrs h.moId) = h.obj.size ∨ h.obj.size < maxEnd iov →
    storedSize cl.attrs = h'.obj.size
  /-- The bytes. -/
  bytes : ∀ x, x < h.obj.size ∨ CoversByte iov x → cl.bytes x = writeRanges app iov e.bytes x

/-- What a write has returned. -/
structure WriteBack (env : Env) (h : ObjHandle) (m : MotrStore) (e : M0Entity) (app : ℕ → Byte)
    (iov : List (MioIovec ℕ)) (r : ℤ × ObjHandle) (s : Sys) : Prop where
  /-- It is the same handle. -/
  moId : r.2.moId = h.moId
  /-- What Motr has of the object. -/
  store : ∃ cl : Cluster, RecordOk cl.attrs ∧ At (m.setCluster h.moId e cl) s ∧
    r.2.On s.store { e with bytes := cl.bytes } ∧
    ((r.1 < 0 ∧ env.Rough) ∨ r.1 = 0 ∧ WrittenBack h m e app iov r.2 cl)

/-- An op that is not finished leaves what a write may leave. -/
theorem WriteFrame.left {cl : Cluster} {obj : MioObj} {s : IoState}
    (hframe : WriteFrame cl obj s.cluster s.obj) (hop : s.op.IsWriteOrPut obj) (l : Leftover) :
    WriteFrame cl obj (s.left l).cluster (s.left l).obj := by
  rcases hop with ⟨-, opcode, ext, hdo⟩ | ⟨n, hhead⟩
  · cases opcode <;> simp only [IoState.left, hdo] <;> exact ⟨hframe.handle, hframe.attrs⟩
  · simp only [IoState.left, hhead]
    split
    · exact ⟨hframe.handle, Or.inr ⟨n, rfl⟩⟩
    · exact hframe

theorem WriteDone.frame {ctx : WriteCtx} {cl : Cluster} {obj : MioObj} {s : IoState}
    (h : WriteDone ctx cl obj s) : WriteFrame cl obj s.cluster s.obj := by
  rcases h.attrs with ⟨-, hobj, hattrs⟩ | ⟨-, hobj, hattrs⟩
  · exact ⟨⟨_, hobj.trans obj.setSize_size.symm⟩, Or.inl hattrs⟩
  · exact ⟨⟨_, hobj⟩, Or.inr ⟨_, hattrs⟩⟩

/-- **A write touches nothing but its object**, whatever becomes of it, and if it succeeds
and the pages that it had to read first fit into an op, then it has overwritten its
ranges. -/
theorem triple_writev (hon : h.On m e) (hrec : RecordOk (m.attrs h.moId))
    (hfit : DrvFits env.conf e.drv limit) (app : ℕ → Byte) {iov : List (MioIovec ℕ)}
    (hok : RangesOk iov) (hne : iov ≠ [])
    (hrbw : (rbwPages (motrObjIoPagesize h.obj) h.obj.size iov).length *
      motrObjIoPagesize h.obj ≤ limit) :
    Triple (At m) (mioObjWritevOp env h app iov) (WriteBack env h m e app iov)
      (fun s => env.Rough ∧ Wrote m h.moId e s.store) := by
  refine Triple.bind triple_ask fun now => Triple.of_fact fun _ => ?_
  obtain ⟨obj, hobj⟩ : ∃ obj, obj = objStatsUpdate h.obj true now iov := ⟨_, rfl⟩
  have hon' := hon.stats true now iov
  rw [← hobj] at hon' ⊢
  have hsize : obj.size = h.obj.size := by rw [hobj]; rfl
  have hps : motrObjIoPagesize obj = motrObjIoPagesize h.obj :=
    motrObjIoPagesize_congr (by rw [hobj]; rfl)
  have hmax := hfit.max hon'.drv
  have hpage := hfit.page hon'.drv
  obtain ⟨op, hsub⟩ := exists_mioMotrObjWritev app hmax hpage hok hne
  obtain ⟨max, hmax', hpos, hord, heow, hrun⟩ := runChain_writev hok.noWrap hsub
    (m.cluster h.moId e)
  obtain rfl : max = limit := Except.ok.inj (hmax'.symm.trans hmax)
  simp only [hsub]
  -- the pages that are read first fit, so that the chain can come to its end
  obtain ⟨last, hlast, hdone, -⟩ := hrun.resolve_right fun ⟨_, _, ⟨v, hv, hlarge⟩, _⟩ =>
    Nat.not_le.mpr hlarge (miovLen_le_of_mem_planArgs hpage hv)
  -- whatever turn the chain is at, it has left a frame around its object
  have hnext : ∀ s s', WriteFrame (m.cluster h.moId e) obj s.cluster s.obj ∧
      s.op.IsWriteOrPut obj → chainStep env.conf s = .inl s' →
      WriteFrame (m.cluster h.moId e) obj s'.cluster s'.obj ∧ s'.op.IsWriteOrPut obj := by
    rintro s s' ⟨hframe, hop⟩ hstep
    have hturn := WriteFrame.chainStep env.conf hframe hop
    rwa [hstep] at hturn
  have hlastframe : WriteFrame (m.cluster h.moId e) obj last.cluster last.obj := hdone.frame
  have hchain := triple_runOp (h := { h with obj := obj })
    (J := fun s => WriteFrame (m.cluster h.moId e) obj s.cluster s.obj) hnext
    (fun _ l hI => hI.1.left hI.2 l) hlast hon'.entity
    ⟨WriteFrame.refl _ _, Or.inl (isWrite_of_mioMotrObjWritev hsub)⟩ hlastframe (Mem.init app)
  · have hrecord : ∀ {cl : Cluster} {obj' : MioObj},
        WriteFrame (m.cluster h.moId e) obj cl obj' → RecordOk cl.attrs := by
      intro cl obj' hframe
      rcases hframe.attrs with hattrs | ⟨n, hattrs⟩
      · rw [hattrs]
        exact hrec
      · rw [hattrs]
        exact recordOk_mem2wire hon'.hints.phints
    refine Triple.bind (hchain.consequence (fun _ hs => hs) (fun _ _ hq => hq) ?_) ?_
    · rintro s ⟨hrough, io, hframe, hs⟩
      exact ⟨hrough, io.cluster, hrecord hframe, hs⟩
    · rintro ⟨rc, h', mem⟩
      refine Triple.pure ?_
      rintro s ⟨io, hframe, hdone⟩
      obtain ⟨hs, hh, -, hrc⟩ := hdone
      have hs : s.store = m.setCluster h.moId e io.cluster := hs
      simp only at hh hrc
      subst hh
      obtain ⟨n, hset⟩ := hframe.handle
      refine ⟨rfl, io.cluster, hrecord hframe, hs, ?_, ?_⟩
      · refine ⟨?_, ?_, hon.pool, ?_⟩
        · rw [hs]
          exact MotrStore.entities_setCluster ..
        · show io.obj.moDrvObj = e.drv
          rw [hset]
          exact hon'.drv
        · show io.obj.HintsOk
          rw [hset]
          exact ⟨hon'.hints.hints, hon'.hints.nrEntries, hon'.hints.phints⟩
      · refine hrc.imp id ?_
        rintro ⟨hzero, rfl⟩
        refine ⟨hzero, ?_⟩
        have hattrs := hdone.attrs
        rw [show (writeCtx obj max app iov (m.cluster h.moId e).bytes).args.rwaMaxEow =
          maxEnd iov from heow, hsize] at hattrs
        refine ⟨?_, ?_, fun x hx => ?_⟩
        · rcases hattrs with ⟨hle, hobj', -⟩ | ⟨hlt, hobj', -⟩
          · simp only [hobj', hsize]
            omega
          · simp only [hobj']
            rw [MioObj.size_setSize _ (maxEnd_lt hok.noWrap)]
            omega
        · intro hstored
          rcases hattrs with ⟨hle, hobj', hattrs⟩ | ⟨hlt, hobj', hattrs⟩
          · simp only [hattrs, hobj', hsize]
            exact hstored.resolve_right (by omega)
          · simp only [hattrs, hobj', storedSize_mem2wire]
        · by_cases hown : (writeCtx obj max app iov (m.cluster h.moId e).bytes).Own x
          · rw [hdone.own x hown]
            refine bytesEnd_eq_writeRanges_within hpos hord ?_ hown (by rwa [hsize])
            refine rbw_length_le_cnt hpos (motrObjMaxSizePerOp_lt hmax) hord ?_ app _
            rwa [hps, hsize]
          · rw [hdone.other x hown]
            refine (writeRanges_of_not_mem fun v hv hvx => hown ?_).symm
            obtain ⟨p, hp, hpx, -⟩ := exists_piece_of_has hv hvx
            exact own_of_piece hpos hord hp hpx

end Writes

/-! ### Opening, creating, deleting and closing -/

section Calls

variable {env : Env} {m : MotrStore} {oid : MioObjId}

/-- What opening has returned. -/
structure OpenBack (env : Env) (m : MotrStore) (oid : MioObjId) (r : ℤ × ObjHandle) : Prop where
  /-- There is nothing yet to be stored on close. -/
  fresh : r.2.obj.moAttrsUpdated = false
  /-- It fails, or the handle is open and has the stored size. -/
  opened : (r.1 < 0 ∧ (env.Rough ∨ r.1 = -ENOENT ∧ m.entities oid = none)) ∨
    r.1 = 0 ∧ ∃ e, r.2.moId = oid ∧ r.2.On m e ∧ r.2.obj.size = storedSize (m.attrs oid)

/-- An op that changes nothing. -/
theorem triple_motrOp_keep (run : MotrStore → ℤ × MotrStore) (hrun : (run m).2 = m) :
    Triple (At m) (motrOp env run fun _ m => m)
      (fun rc s => (rc = (run m).1 ∨ rc < 0 ∧ env.Rough) ∧ At m s)
      (fun s => env.Rough ∧ At m s) := by
  refine (triple_motrOp run fun _ m => m).consequence (fun _ hs => hs) ?_ ?_
  · rintro rc s (⟨hrc, hs⟩ | ⟨hneg, -, hs⟩)
    · rw [hrun] at hs
      exact ⟨Or.inl hrc, hs⟩
    · exact ⟨Or.inr hneg, hs⟩
  · rintro s ⟨hrough, -, hs⟩
    exact ⟨hrough, hs⟩

theorem m0EntityOpen_snd (oid : MioObjId) (m : MotrStore) : (m0EntityOpen oid m).2 = m := by
  rw [m0EntityOpen]
  split <;> rfl

/-- **Opening changes nothing.** -/
theorem triple_open (hrec : RecordOk (m.attrs oid)) :
    Triple (At m) (mioObjOpenOp env oid) (fun r s => OpenBack env m oid r ∧ At m s)
      (fun s => env.Rough ∧ At m s) := by
  refine Triple.bind (triple_motrOp_keep _ (m0EntityOpen_snd oid m)) fun rc => ?_
  refine Triple.of_fact fun hrc => ?_
  by_cases hneg : rc < 0
  · rw [if_pos hneg]
    refine Triple.pure fun s hs => ⟨⟨rfl, Or.inl ⟨hneg, ?_⟩⟩, hs⟩
    rcases hrc with hrc | ⟨-, hrough⟩
    · rw [m0EntityOpen] at hrc
      cases he : m.entities oid with
      | none =>
        rw [he] at hrc
        exact Or.inr ⟨hrc, rfl⟩
      | some e =>
        rw [he] at hrc
        exact absurd hneg (by rw [hrc]; exact lt_irrefl _)
    · exact Or.inl hrough
  rw [if_neg hneg]
  have hrc : rc = (m0EntityOpen oid m).1 := hrc.resolve_right fun h => hneg h.1
  refine Triple.get_bind fun s hs => ?_
  have hstore : s.store = m := hs
  rw [hstore]
  cases he : m.entities oid with
  | none =>
    rw [m0EntityOpen, he] at hrc
    exact absurd (by rw [hrc]; exact (by decide : (-ENOENT : ℤ) < 0)) hneg
  | some e =>
    dsimp only
    refine Triple.bind ((triple_motrOp_keep (m := m) (fun m => (0, m)) rfl).consequence ?_
      (fun _ _ hq => hq) fun _ hc => hc) fun rc' => Triple.of_fact fun hrc' => ?_
    · rintro t rfl
      exact hstore
    · by_cases hneg' : rc' < 0
      · rw [if_pos hneg']
        refine Triple.pure fun v hv => ⟨⟨rfl, Or.inl ⟨hneg', Or.inl ?_⟩⟩, hv⟩
        rcases hrc' with hrc' | ⟨-, hrough⟩
        · exact absurd hneg' (by rw [hrc']; exact lt_irrefl _)
        · exact hrough
      · rw [if_neg hneg']
        rcases motrObjAttrsGetPp_cases hrec (objInit e.drv) with
          ⟨hattrs, hload⟩ | ⟨src, hsrc, hattrs, hload⟩
        · rw [hload]
          refine fun v hv => ⟨⟨rfl, Or.inr ⟨rfl, e, rfl, ⟨he, rfl, rfl, hintsOk_objInit _⟩, ?_⟩⟩,
            hv⟩
          rw [hattrs]
          rfl
        · rw [hload]
          refine fun v hv => ⟨⟨rfl, Or.inr ⟨rfl, e, rfl,
            ⟨he, rfl, rfl, (hintsOk_objInit _).load hsrc⟩, ?_⟩⟩, hv⟩
          rw [hattrs, storedSize_mem2wire]
          rfl

/-- What creating an object may leave. -/
def Created (env : Env) (m : MotrStore) (pool : Option MioPoolId) (oid : MioObjId)
    (m' : MotrStore) : Prop :=
  m' = m ∨ m.entities oid = none ∧
    m' = m.setEntity oid (some (freshEntity env (pool.getD env.motrPool)))

/-- What creating an object has returned. -/
structure CreateBack (env : Env) (m : MotrStore) (pool : Option MioPoolId) (oid : MioObjId)
    (r : ℤ × ObjHandle) (s : Sys) : Prop where
  /-- There is a new object, or nothing has changed. -/
  created : Created env m pool oid s.store
  /-- There is nothing yet to be stored on close. -/
  fresh : r.2.obj.moAttrsUpdated = false
  /-- It fails, or there was no such object, and the handle is open on the new one. -/
  opened : (r.1 < 0 ∧ (env.Rough ∨ m.entities oid ≠ none)) ∨
    r.1 = 0 ∧ r.2.moId = oid ∧ r.2.obj.size = 0 ∧
      m.entities oid = none ∧ r.2.On s.store (freshEntity env (pool.getD env.motrPool))

/-- A change of Motr that has been made or has not been made. -/
theorem at_applied {l : Leftover} {m m' : MotrStore} {s : Sys} {F : MotrStore → Prop}
    (hs : At (if l.applied then m' else m) s) (h : F m) (h' : F m') : F s.store := by
  have hs : s.store = _ := hs
  rw [hs]
  split
  · exact h'
  · exact h

/-- **Creating an object** makes one, or changes nothing. -/
theorem triple_create (pool : Option MioPoolId) :
    Triple (At m) (mioObjCreateOp env pool oid) (CreateBack env m pool oid)
      (fun s => env.Rough ∧ Created env m pool oid s.store) := by
  have hsnd : Created env m pool oid (m0EntityCreate env oid (pool.getD env.motrPool) m).2 := by
    rw [m0EntityCreate]
    split
    · exact Or.inl rfl
    · next hnone => exact Or.inr ⟨hnone, rfl⟩
  refine Triple.bind ((triple_motrOp _ _).consequence (fun _ hs => hs) (fun _ _ hq => hq) ?_)
    fun rc => ?_
  · rintro s ⟨hrough, l, hs⟩
    exact ⟨hrough, at_applied (F := Created env m pool oid) hs (Or.inl rfl) hsnd⟩
  · refine Triple.pure ?_
    rintro s (⟨rfl, hs⟩ | ⟨⟨hneg, hrough⟩, l, hs⟩)
    · have hs : s.store = _ := hs
      refine ⟨by rw [hs]; exact hsnd, rfl, ?_⟩
      cases he : m.entities oid with
      | some e =>
        left
        rw [m0EntityCreate, he]
        exact ⟨(by decide : (-EEXIST : ℤ) < 0), Or.inr (by simp)⟩
      | none =>
        refine Or.inr ⟨by rw [m0EntityCreate, he], rfl, rfl, rfl, ?_, rfl, rfl, hintsOk_objInit _⟩
        rw [hs, m0EntityCreate, he]
        exact MotrStore.entities_setEntity ..
    · exact ⟨at_applied (F := Created env m pool oid) hs (Or.inl rfl) hsnd, rfl,
        Or.inl ⟨hneg, Or.inl hrough⟩⟩

/-- What deleting an object may leave: all of it, its record, or nothing. -/
def Deleted (m : MotrStore) (oid : MioObjId) (m' : MotrStore) : Prop :=
  m' = m ∨ m' = m.setEntity oid none ∨ m' = (m.setEntity oid none).setAttrs oid none

/-- **Deleting an object** removes the object and then its record, and gets as far as it
gets. -/
theorem triple_delete :
    Triple (At m) (mioObjDeleteOp env oid)
      (fun rc s => Deleted m oid s.store ∧
        ((rc < 0 ∧ (env.Rough ∨ m.entities oid = none)) ∨
          rc = 0 ∧ s.store = (m.setEntity oid none).setAttrs oid none))
      (fun s => env.Rough ∧ Deleted m oid s.store) := by
  refine Triple.bind ((triple_motrOp_keep _ (m0EntityOpen_snd oid m)).consequence
    (fun _ hs => hs) (fun _ _ hq => hq) fun s hs => ⟨hs.1, Or.inl hs.2⟩) fun rc =>
      Triple.of_fact fun hrc => ?_
  by_cases hneg : rc < 0
  · rw [if_pos hneg]
    refine Triple.pure fun s hs => ⟨Or.inl hs, Or.inl ⟨hneg, ?_⟩⟩
    rcases hrc with hrc | ⟨-, hrough⟩
    · rw [m0EntityOpen] at hrc
      cases he : m.entities oid with
      | none => exact Or.inr rfl
      | some e =>
        rw [he] at hrc
        exact absurd hneg (by rw [hrc]; exact lt_irrefl _)
    · exact Or.inl hrough
  rw [if_neg hneg]
  -- the object goes
  refine Triple.bind ((triple_motrOp _ _).consequence (fun _ hs => hs) (fun _ _ hq => hq) ?_)
    fun rc' => Triple.of_start fun t ht => ?_
  · rintro t ⟨hrough, l, ht⟩
    exact ⟨hrough, at_applied (F := Deleted m oid) ht (Or.inl rfl) (Or.inr (Or.inl rfl))⟩
  by_cases hneg' : rc' < 0
  · rw [if_pos hneg']
    refine Triple.pure fun u hu => ?_
    rw [hu]
    rcases ht with ⟨hzero, -⟩ | ⟨⟨-, hrough⟩, l, ht⟩
    · exact absurd hneg' (by rw [hzero]; exact lt_irrefl _)
    · exact ⟨at_applied (F := Deleted m oid) ht (Or.inl rfl) (Or.inr (Or.inl rfl)),
        Or.inl ⟨hneg', Or.inl hrough⟩⟩
  rw [if_neg hneg']
  have hgone : At (m.setEntity oid none) t := by
    rcases ht with ⟨-, ht⟩ | ⟨⟨hrc', -⟩, -⟩
    · exact ht
    · exact absurd hrc' hneg'
  -- its record goes
  refine (triple_motrOp (m := m.setEntity oid none) _ _).consequence (fun u hu => hu ▸ hgone) ?_ ?_
  · rintro rc'' u (⟨rfl, hu⟩ | ⟨⟨hrc'', hrough⟩, l, hu⟩)
    · exact ⟨Or.inr (Or.inr hu), Or.inr ⟨rfl, hu⟩⟩
    · exact ⟨at_applied (F := Deleted m oid) hu (Or.inr (Or.inl rfl)) (Or.inr (Or.inr rfl)),
        Or.inl ⟨hrc'', Or.inl hrough⟩⟩
  · rintro u ⟨hrough, l, hu⟩
    exact ⟨hrough, at_applied (F := Deleted m oid) hu (Or.inr (Or.inl rfl)) (Or.inr (Or.inr rfl))⟩

/-- What closing may leave: the record there was, or one made of the handle. -/
def Closed (m : MotrStore) (h : ObjHandle) (m' : MotrStore) : Prop :=
  m' = m ∨ ∃ src : MioObj, src.moAttrs.moaPhints.Wf ∧ src.size = h.obj.size ∧
    m' = m.setAttrs h.moId (some (motrObjAttrsMem2wire src))

/-- **Closing** stores the attributes, or does not. -/
theorem triple_close {h : ObjHandle} (hints : h.obj.HintsOk) :
    Triple (At m) (mioObjCloseOp env h) (fun _ s => Closed m h s.store)
      (fun s => env.Rough ∧ Closed m h s.store) := by
  rw [mioObjCloseOp]
  split
  · obtain ⟨src, hsrc⟩ : ∃ src, src = h.obj.withHints (mioHintMapFini h.obj.moHints) := ⟨_, rfl⟩
    have hclosed : Closed m h (m.setAttrs h.moId (some (motrObjAttrsMem2wire src))) :=
      Or.inr ⟨src, by rw [hsrc]; exact hints.phints, by rw [hsrc]; rfl, rfl⟩
    simp only [← hsrc]
    refine Triple.bind ((triple_motrOp _ _).consequence (fun _ hs => hs) (fun _ _ hq => hq) ?_)
      fun rc => Triple.pure ?_
    · rintro s ⟨hrough, l, hs⟩
      exact ⟨hrough, at_applied (F := Closed m h) hs (Or.inl rfl) hclosed⟩
    · rintro s (⟨-, hs⟩ | ⟨-, l, hs⟩)
      · have hs : s.store = _ := hs
        rw [hs]
        exact hclosed
      · exact at_applied (F := Closed m h) hs (Or.inl rfl) hclosed
  · exact Triple.pure fun s hs => Or.inl hs

end Calls

end CortxMio
