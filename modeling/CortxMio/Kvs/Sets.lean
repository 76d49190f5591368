import CortxMio.Lib.Cells
import CortxMio.Obj.Id

/-!
# Key-value sets

A key-value set of MIO is an index of Motr, and every operation on a set is one op
on its index. What holds two sets apart is the conversion of their identifiers: the
sixteen bytes of a set's identifier are read as two big-endian numbers, like those of
an object, but then the first byte gives way to the type of an index
(`CortxMio.kvsIdToUint128`). The attributes of objects are in an index of the same
kind.

Of Motr it is assumed that an op on an index reads and changes that index only; what
it does there is a parameter. With it `CortxMio.kvsStep` is the system of all sets,
and `CortxMio.separateStep` what it is meant to be, every set on its own. The two
have the same runs if the sets in use differ in more than the first byte of their
identifiers, and from the identifier of the attributes
(`CortxMio.kvs_isolated`); two that do not are one set
(`CortxMio.not_kvs_isolated`).
-/

namespace CortxMio

open Lib

/-! ### Identifiers -/

/-- `MIO_KVS_ID_LEN`. -/
abbrev mioKvsIdLen : ℕ := 16

/-- `struct mio_kvs_id`. -/
structure MioKvsId where
  /-- The bytes. -/
  mkiBytes : List Byte
  /-- Their number. -/
  length_mkiBytes : mkiBytes.length = mioKvsIdLen
  deriving DecidableEq

/-- `struct m0_fid`. -/
structure M0Fid where
  /-- The container. -/
  fContainer : UInt64
  /-- The key. -/
  fKey : UInt64
  deriving DecidableEq, Repr

/-- `M0_FID_TINIT`: the type takes the place of the top byte of the container. -/
def m0FidTinit (type container key : UInt64) : M0Fid where
  fContainer := (type <<< 56) ||| (container &&& 0x00ffffffffffffff)
  fKey := key

/-- `kvs_id_to_uint128`. -/
def kvsIdToUint128 (kid : MioKvsId) : M0Uint128 :=
  let hi := mioByteorderBe64ToCpu (kid.mkiBytes.take 8)
  let lo := mioByteorderBe64ToCpu (kid.mkiBytes.drop 8)
  -- make Motr KVS happy: 'x' is the type of an index
  let idxFid := m0FidTinit 0x78 hi lo
  ⟨idxFid.fContainer, idxFid.fKey⟩

/-- `mio_motr_obj_md_kvs_fid`. -/
def mioMotrObjMdKvsFid : M0Fid := m0FidTinit 0x78 0 0x10

/-- `mio_motr_obj_md_kvs_id`. -/
def mioMotrObjMdKvsId : M0Uint128 := ⟨mioMotrObjMdKvsFid.fContainer, mioMotrObjMdKvsFid.fKey⟩

/-- What is left of an identifier: all bytes but the first. -/
def MioKvsId.tail (kid : MioKvsId) : List Byte := kid.mkiBytes.drop 1

/-- The same for the index of the attributes. -/
def attrsTail : List Byte := [0, 0, 0, 0, 0, 0, 0, 0, 0, 0, 0, 0, 0, 0, 0x10]

/-- The container of an index keeps the lower seven bytes. -/
theorem fContainer_inj {a b type : UInt64} (key key' : UInt64)
    (htype : type.toNat < 256) :
    (m0FidTinit type a key).fContainer = (m0FidTinit type b key').fContainer ↔
      a.toNat % 2 ^ 56 = b.toNat % 2 ^ 56 := by
  have hval : ∀ (c k : UInt64), (m0FidTinit type c k).fContainer.toNat =
      2 ^ 56 * type.toNat + c.toNat % 2 ^ 56 := by
    intro c k
    have hmask : (0x00ffffffffffffff : UInt64).toNat = 2 ^ 56 - 1 := by decide
    have hshift : (type <<< (56 : UInt64)).toNat = 2 ^ 56 * type.toNat := by
      rw [UInt64.toNat_shiftLeft, show (56 : UInt64).toNat % 64 = 56 from rfl, Nat.shiftLeft_eq,
        Nat.mod_eq_of_lt (by omega), Nat.mul_comm]
    rw [m0FidTinit, UInt64.toNat_or, UInt64.toNat_and, hmask, hshift,
      Nat.and_two_pow_sub_one_eq_mod,
      Nat.two_pow_add_eq_or_of_lt (Nat.mod_lt _ (Nat.two_pow_pos 56))]
  rw [← UInt64.toNat_inj, hval, hval]
  omega

theorem be64_toNat {bytes : List Byte} (h : bytes.length = 8) :
    (mioByteorderBe64ToCpu bytes).toNat = leNat bytes.reverse := by
  have hlt := leNat_lt bytes.reverse
  rw [List.length_reverse, h] at hlt
  exact UInt64.toNat_ofNat_of_lt' (lt_of_lt_of_eq hlt (by norm_num))

/-- Without its top byte, a big-endian number is what the other bytes stand for. -/
theorem be64_mod {bytes : List Byte} (h : bytes.length = 8) :
    (mioByteorderBe64ToCpu bytes).toNat % 2 ^ 56 = leNat (bytes.drop 1).reverse := by
  rw [be64_toNat h]
  obtain ⟨b, t, rfl⟩ := List.exists_cons_of_length_pos (show 0 < bytes.length by omega)
  have hlen : t.reverse.length = 7 := by
    rw [List.length_reverse]
    simpa using h
  have hlt := leNat_lt t.reverse
  rw [hlen] at hlt
  rw [List.reverse_cons, leNat_append, hlen, List.drop_one, List.tail_cons,
    show (256 : ℕ) ^ 7 = 2 ^ 56 by norm_num, Nat.add_mul_mod_self_left,
    Nat.mod_eq_of_lt (lt_of_lt_of_eq hlt (by norm_num))]

/-- **Two sets are one index exactly if their identifiers differ at most in the first
byte.** -/
theorem kvsIdToUint128_eq_iff (kid kid' : MioKvsId) :
    kvsIdToUint128 kid = kvsIdToUint128 kid' ↔ kid.tail = kid'.tail := by
  have htake : ∀ k : MioKvsId, (k.mkiBytes.take 8).length = 8 := fun k => by
    rw [List.length_take, k.length_mkiBytes]
    rfl
  have hdrop : ∀ k : MioKvsId, (k.mkiBytes.drop 8).length = 8 := fun k => by
    rw [List.length_drop, k.length_mkiBytes]
    rfl
  have hcut : ∀ k : MioKvsId, k.tail = (k.mkiBytes.take 8).drop 1 ++ k.mkiBytes.drop 8 := by
    intro k
    rw [MioKvsId.tail]
    conv_lhs => rw [← List.take_append_drop 8 k.mkiBytes]
    rw [List.drop_append_of_le_length (by rw [htake]; omega)]
  have hhi : (kvsIdToUint128 kid).uHi = (kvsIdToUint128 kid').uHi ↔
      (kid.mkiBytes.take 8).drop 1 = (kid'.mkiBytes.take 8).drop 1 := by
    refine (fContainer_inj 0 0 (by decide)).trans ?_
    rw [be64_mod (htake kid), be64_mod (htake kid'), leNat_inj (by simp [htake]),
      List.reverse_inj]
  have hlo : (kvsIdToUint128 kid).uLo = (kvsIdToUint128 kid').uLo ↔
      kid.mkiBytes.drop 8 = kid'.mkiBytes.drop 8 := by
    refine UInt64.toNat_inj.symm.trans ?_
    change (mioByteorderBe64ToCpu _).toNat = (mioByteorderBe64ToCpu _).toNat ↔ _
    rw [be64_toNat (hdrop kid), be64_toNat (hdrop kid'), leNat_inj (by simp [hdrop]),
      List.reverse_inj]
  rw [hcut, hcut]
  constructor
  · intro h
    rw [hhi.mp (congrArg M0Uint128.uHi h), hlo.mp (congrArg M0Uint128.uLo h)]
  · intro h
    obtain ⟨h1, h2⟩ := List.append_inj h (by rw [List.length_drop, List.length_drop, htake, htake])
    exact M0Uint128.mk.injEq _ _ _ _ ▸ ⟨hhi.mpr h1, hlo.mpr h2⟩

/-- **Which set is the index of the attributes.** -/
theorem kvsIdToUint128_eq_attrs_iff (kid : MioKvsId) :
    kvsIdToUint128 kid = mioMotrObjMdKvsId ↔ kid.tail = attrsTail := by
  have hattrs : mioMotrObjMdKvsId = kvsIdToUint128 ⟨0 :: attrsTail, rfl⟩ := by decide
  rw [hattrs, kvsIdToUint128_eq_iff]
  rfl

/-! ### Operations -/

/-- `struct mio_kv_pair`: a key and a value with their lengths; either may be
`NULL`. -/
structure MioKvPair where
  /-- The key. -/
  mkpKey : Option (List Byte)
  /-- The value. -/
  mkpVal : Option (List Byte)
  deriving DecidableEq, Repr

/-- `enum m0_idx_opcode`, as far as it is used for pairs. -/
inductive M0IdxOpcode
  /-- `M0_IC_GET`. -/
  | get
  /-- `M0_IC_PUT`. -/
  | put
  /-- `M0_IC_DEL`. -/
  | del
  /-- `M0_IC_NEXT`. -/
  | next
  deriving DecidableEq, Repr

/-- What an op asks of an index. -/
inductive M0IdxReq
  /-- `m0_entity_create`. -/
  | create
  /-- `m0_entity_delete`. -/
  | delete
  /-- `m0_idx_op`. -/
  | query (opcode : M0IdxOpcode) (keys : List (Option (List Byte)))
      (vals : Option (List (Option (List Byte)))) (excludeStartKey : Bool)
  deriving DecidableEq

/-- What comes back: the code of the op, one code for each pair, and what is then in
the vectors of keys and of values. -/
structure M0IdxRep where
  /-- `m0_rc`. -/
  rc : ℤ
  /-- `rcs`. -/
  rcs : List ℤ
  /-- The keys. -/
  keys : List (Option (List Byte))
  /-- The values. -/
  vals : List (Option (List Byte))
  deriving DecidableEq

/-- `motr_kvs_query`, with the vectors from `motr_kvs_keys_vals_alloc`: there is none
for the values of a DEL, and they are filled for a PUT only. -/
def motrKvsQuery (opcode : M0IdxOpcode) (kvps : List MioKvPair) (excludeStartKey : Bool) :
    M0IdxReq :=
  .query opcode (kvps.map MioKvPair.mkpKey)
    (if opcode = .del then none
      else some (kvps.map fun p => if opcode = .put then p.mkpVal else none))
    excludeStartKey

/-- The operations on a set: `mio_motr_kvs_create_set`, `mio_motr_kvs_del_set`,
`mio_motr_kvs_get`, `mio_motr_kvs_next`, `mio_motr_kvs_put`, `mio_motr_kvs_del`. -/
inductive MioKvsOp
  /-- Create the set. -/
  | createSet
  /-- Delete the set. -/
  | delSet
  /-- Look up the keys. -/
  | get (kvps : List MioKvPair)
  /-- The pairs from a key on. -/
  | next (kvps : List MioKvPair) (excludeStartKey : Bool)
  /-- Store the pairs. -/
  | put (kvps : List MioKvPair)
  /-- Delete the keys. -/
  | del (kvps : List MioKvPair)
  deriving DecidableEq

/-- What an operation asks of the index. -/
def MioKvsOp.req : MioKvsOp → M0IdxReq
  | .createSet => .create
  | .delSet => .delete
  | .get kvps => motrKvsQuery .get kvps false
  | .next kvps excludeStartKey => motrKvsQuery .next kvps excludeStartKey
  | .put kvps => motrKvsQuery .put kvps false
  | .del kvps => motrKvsQuery .del kvps false

/-- What the application sees of an operation. -/
structure KvsResult where
  /-- The code of the operation. -/
  rc : ℤ
  /-- The pairs. -/
  kvps : List MioKvPair
  /-- The codes of the pairs. -/
  rcs : List ℤ
  deriving DecidableEq

/-- `motr_kvs_get_pp`, `motr_kvs_next_pp` and `motr_kvs_generic_pp`: the pairs of an
operation that has not failed are filled from the vectors. -/
def MioKvsOp.result (rep : M0IdxRep) : MioKvsOp → KvsResult
  | .createSet => ⟨rep.rc, [], []⟩
  | .delSet => ⟨rep.rc, [], []⟩
  | .get kvps => ⟨rep.rc, if rep.rc ≠ 0 then kvps
      else kvps.mapIdx fun i p => { p with mkpVal := rep.vals.getD i none }, rep.rcs⟩
  | .next kvps _ => ⟨rep.rc, if rep.rc ≠ 0 then kvps
      else kvps.mapIdx fun i _ => ⟨rep.keys.getD i none, rep.vals.getD i none⟩, rep.rcs⟩
  | .put kvps => ⟨rep.rc, kvps, rep.rcs⟩
  | .del kvps => ⟨rep.rc, kvps, rep.rcs⟩

/-! ### All sets -/

/-- Something is done to an index: an operation on a set, or a query of the driver's
own on the attributes of objects. -/
inductive IdxCall
  /-- An operation on a set. -/
  | set (kid : MioKvsId) (op : MioKvsOp)
  /-- A query on the attributes. -/
  | attrs (req : M0IdxReq)
  deriving DecidableEq

/-- Whose index it is; `none` stands for the attributes. -/
def IdxCall.owner : IdxCall → Option MioKvsId
  | .set kid _ => some kid
  | .attrs _ => none

/-- The identifier of the index in Motr. -/
def idxId : Option MioKvsId → M0Uint128
  | some kid => kvsIdToUint128 kid
  | none => mioMotrObjMdKvsId

section System

variable {ι : Type} (motr : M0IdxReq → ι → M0IdxRep × ι)

/-- What a call does with the index and what it returns. -/
def IdxCall.act : IdxCall → ι → (KvsResult ⊕ M0IdxRep) × ι
  | .set _ op, idx => let (rep, idx) := motr op.req idx; (.inl (op.result rep), idx)
  | .attrs req, idx => let (rep, idx) := motr req idx; (.inr rep, idx)

/-- **The system**: one index for each identifier of Motr. -/
def kvsStep : (M0Uint128 → ι) → IdxCall → Option ((KvsResult ⊕ M0IdxRep) × (M0Uint128 → ι)) :=
  cellStep IdxCall.owner (IdxCall.act motr) idxId

/-- **What it is meant to be**: every set, and the attributes, on their own. -/
def separateStep : (Option MioKvsId → ι) → IdxCall →
    Option ((KvsResult ⊕ M0IdxRep) × (Option MioKvsId → ι)) :=
  cellStep IdxCall.owner (IdxCall.act motr) id

/-- The call is on the attributes, or on one of these sets. -/
def IdxCall.On (K : Set MioKvsId) : IdxCall → Prop
  | .set kid _ => kid ∈ K
  | .attrs _ => True

/-- The identifiers differ in more than the first byte, and from that of the
attributes. -/
structure KvsIdsApart (K : Set MioKvsId) : Prop where
  /-- From each other. -/
  sets : ∀ kid ∈ K, ∀ kid' ∈ K, kid ≠ kid' → kid.tail ≠ kid'.tail
  /-- From the attributes. -/
  attrs : ∀ kid ∈ K, kid.tail ≠ attrsTail

/-- Identifiers that are apart have an index each. -/
theorem KvsIdsApart.injOn {K : Set MioKvsId} (h : KvsIdsApart K) :
    Set.InjOn idxId {o | ∀ kid, o = some kid → kid ∈ K} := by
  rintro (_ | kid) ho (_ | kid') ho' heq
  · rfl
  · exact absurd ((kvsIdToUint128_eq_attrs_iff kid').mp heq.symm) (h.attrs kid' (ho' kid' rfl))
  · exact absurd ((kvsIdToUint128_eq_attrs_iff kid).mp heq) (h.attrs kid (ho kid rfl))
  · by_contra hne
    refine h.sets kid (ho kid rfl) kid' (ho' kid' rfl) (fun h => hne (by rw [h])) ?_
    exact (kvsIdToUint128_eq_iff kid kid').mp heq

/-- **When sets are on their own.** Two identifiers are of the same index exactly if
they differ in the first byte at most, and of the index of the attributes if the
other bytes are its; and in every run on sets that are apart all operations return
what they would if every set, and the attributes, were on their own, and leave the
same behind. -/
theorem kvs_isolated :
    (∀ kid kid', kvsIdToUint128 kid = kvsIdToUint128 kid' ↔ kid.tail = kid'.tail) ∧
    (∀ kid, kvsIdToUint128 kid = mioMotrObjMdKvsId ↔ kid.tail = attrsTail) ∧
    ∀ (K : Set MioKvsId) (s s' : M0Uint128 → ι) (es : List (IdxCall × (KvsResult ⊕ M0IdxRep))),
      KvsIdsApart K → Run (StepOf (kvsStep motr)) s es s' → (∀ e ∈ es, e.1.On K) →
      ∃ t, Run (StepOf (separateStep motr)) (fun o => s (idxId o)) es t ∧
        (∀ kid ∈ K, s' (kvsIdToUint128 kid) = t (some kid)) ∧ s' mioMotrObjMdKvsId = t none := by
  refine ⟨kvsIdToUint128_eq_iff, kvsIdToUint128_eq_attrs_iff, fun K s s' es hK hrun hes => ?_⟩
  obtain ⟨t, ht, hcells⟩ := separate_of_run hK.injOn hrun fun e he kid hkid => by
    have hon := hes e he
    cases hcall : e.1 with
    | set kid' op =>
      rw [hcall] at hkid hon
      obtain rfl : kid' = kid := Option.some.inj hkid
      exact hon
    | attrs req =>
      rw [hcall] at hkid
      exact absurd hkid (by simp [IdxCall.owner])
  refine ⟨t, ht, fun kid hkid => hcells (some kid) fun k hk => ?_, hcells none (by simp)⟩
  obtain rfl := Option.some.inj hk
  exact hkid

end System

/-! ### Two sets -/

/-- An index as a list of pairs, and what Motr does with it; `none` is an index that
does not exist. -/
def listMotr : M0IdxReq → Option (List (List Byte × List Byte)) →
    M0IdxRep × Option (List (List Byte × List Byte))
  | .create, none => (⟨0, [], [], []⟩, some [])
  | .create, some ps => (⟨-EEXIST, [], [], []⟩, some ps)
  | .delete, none => (⟨-ENOENT, [], [], []⟩, none)
  | .delete, some _ => (⟨0, [], [], []⟩, none)
  | .query .., none => (⟨-ENOENT, [], [], []⟩, none)
  | .query .get keys _ _, some ps =>
      let vals := keys.map fun k => k.bind fun k => ps.lookup k
      (⟨0, vals.map fun v => if v.isSome then 0 else -ENOENT, keys, vals⟩, some ps)
  | .query .put keys vals _, some ps =>
      let new := (keys.zip (vals.getD [])).filterMap fun p =>
        p.1.bind fun k => p.2.map fun v => (k, v)
      (⟨0, keys.map fun _ => 0, keys, vals.getD []⟩,
        some (new ++ ps.filter fun p => p.1 ∉ new.map Prod.fst))
  | .query .del keys vals _, some ps =>
      (⟨0, keys.map fun k => if ps.any (fun p => some p.1 = k) then 0 else -ENOENT, keys,
        vals.getD []⟩, some (ps.filter fun p => some p.1 ∉ keys))
  | .query .next keys _ excludeStartKey, some ps =>
      let rest := (ps.mergeSort fun p q => p.1 ≤ q.1).filter fun p =>
        match keys.head?.join with
        | none => true
        | some k => if excludeStartKey then k < p.1 else k ≤ p.1
      let found := keys.mapIdx fun i _ => rest[i]?
      (⟨0, found.map fun p => if p.isSome then 0 else -ENOENT,
        found.map fun p => p.map Prod.fst, found.map fun p => p.map Prod.snd⟩, some ps)

/-- A set whose identifier is all zeros but for its first and its last byte. -/
def kvsIdOf (first last : Byte) : MioKvsId where
  mkiBytes := [first, 0, 0, 0, 0, 0, 0, 0, 0, 0, 0, 0, 0, 0, 0, last]
  length_mkiBytes := rfl

/-- A pair is put into one of two new sets and looked up in the other. -/
def putGetCalls (kid kid' : MioKvsId) : List IdxCall :=
  [.set kid .createSet, .set kid' .createSet, .set kid (.put [⟨some [1], some [7]⟩]),
    .set kid' (.get [⟨some [1], none⟩])]

/-- Two sets whose identifiers differ in the last byte. -/
theorem kvs_isolated_putGet :
    ∃ es s', exec (kvsStep listMotr) (fun _ => none) (putGetCalls (kvsIdOf 0 1) (kvsIdOf 0 2)) =
        some (es, s') ∧
      ∃ t, Run (StepOf (separateStep listMotr)) (fun _ => none) es t ∧
        s' (kvsIdToUint128 (kvsIdOf 0 2)) = t (some (kvsIdOf 0 2)) := by
  obtain ⟨es, s', hexec⟩ : ∃ es s', exec (kvsStep listMotr) (fun _ => none)
    (putGetCalls (kvsIdOf 0 1) (kvsIdOf 0 2)) = some (es, s') := ⟨_, _, rfl⟩
  have hapart : KvsIdsApart {kvsIdOf 0 1, kvsIdOf 0 2} := by
    constructor
    · rintro _ (rfl | rfl) _ (rfl | rfl) hne
      · exact absurd rfl hne
      · decide
      · decide
      · exact absurd rfl hne
    · rintro _ (rfl | rfl) <;> decide
  have hon : ∀ e ∈ es, e.1.On {kvsIdOf 0 1, kvsIdOf 0 2} := by
    intro e he
    have hmem : e.1 ∈ putGetCalls (kvsIdOf 0 1) (kvsIdOf 0 2) := by
      rw [← map_fst_of_exec hexec]
      exact List.mem_map_of_mem he
    simp only [putGetCalls, List.mem_cons, List.not_mem_nil, or_false] at hmem
    rcases hmem with h | h | h | h <;> simp [h, IdxCall.On]
  obtain ⟨t, hrun, hsets, -⟩ :=
    (kvs_isolated listMotr).2.2 _ _ _ _ hapart (run_of_exec _ hexec) hon
  exact ⟨es, s', hexec, t, hrun, hsets _ (by simp)⟩

/-- **Sets whose identifiers differ in the first byte are one set**: the pair put into
the one is found in the other. And there are sets that are the attributes of
objects. -/
theorem not_kvs_isolated :
    kvsIdOf 0 1 ≠ kvsIdOf 1 1 ∧ kvsIdToUint128 (kvsIdOf 0 1) = kvsIdToUint128 (kvsIdOf 1 1) ∧
      kvsIdToUint128 (kvsIdOf 0 0x10) = mioMotrObjMdKvsId ∧
      ∃ es s', Run (StepOf (kvsStep listMotr)) (fun _ => none) es s' ∧
        es.map Prod.fst = putGetCalls (kvsIdOf 0 1) (kvsIdOf 1 1) ∧
        ¬∃ t, Run (StepOf (separateStep listMotr)) (fun _ => none) es t := by
  refine ⟨by decide, by decide, by decide, ?_⟩
  obtain ⟨es, s', hexec⟩ : ∃ es s', exec (kvsStep listMotr) (fun _ => none)
    (putGetCalls (kvsIdOf 0 1) (kvsIdOf 1 1)) = some (es, s') := ⟨_, _, rfl⟩
  refine ⟨es, s', run_of_exec _ hexec, map_fst_of_exec hexec, ?_⟩
  rintro ⟨t, hrun⟩
  have hsep := exec_of_run hrun
  rw [map_fst_of_exec hexec] at hsep
  have hne : (exec (kvsStep listMotr) (fun _ => none)
        (putGetCalls (kvsIdOf 0 1) (kvsIdOf 1 1))).map Prod.fst ≠
      (exec (separateStep listMotr) (fun _ => none)
        (putGetCalls (kvsIdOf 0 1) (kvsIdOf 1 1))).map Prod.fst := by
    decide +kernel
  rw [hexec, hsep] at hne
  exact hne rfl

end CortxMio
