import CortxMio.Obj.StoreSpec

/-!
# Objects block by block

The example programs move the content of an object in blocks, at most
`MIO_CMD_MAX_BLOCK_COUNT_PER_OP` of them in one op, and cut the last block off at the size
of the object (`CortxMio.objIovecs`). As long as the numbers stay within 64 bits, the
blocks of one op cover a stretch of the object without gap or overlap, each with a buffer
of its own (`CortxMio.Stretch`), and if the stretch starts on a page, or where the object
ends, then at most one page has to be read before it is written
(`CortxMio.Stretch.length_rbwPages_le`).
-/

namespace CortxMio

open Lib

/-- `MIO_CMD_MAX_BLOCK_COUNT_PER_OP`. -/
abbrev mioCmdMaxBlockCountPerOp : ℕ := 120

/-- One round of the loop of `obj_alloc_iovecs`. -/
def objIovec (base bsize offset maxOffset i : ℕ) : MioIovec ℕ :=
  let off := u64 (offset + u64 (i * bsize))
  ⟨base + u64 (i * bsize), off,
    if u64 (off + bsize) > maxOffset then u64Sub maxOffset off else bsize⟩

/-- The vectors that `obj_alloc_iovecs` fills. -/
def objIovecs (base bcount bsize offset maxOffset : ℕ) : List (MioIovec ℕ) :=
  (List.range bcount).map (objIovec base bsize offset maxOffset)

/-- `obj_alloc_iovecs`. A buffer whose size wraps around is too small. -/
def objAllocIovecs (env : Env) (bcount bsize offset maxOffset : ℕ) :
    StoreM (ℤ × List (MioIovec ℕ)) := do
  let iovecs ← ask env.malloc
  let base ← ask env.malloc
  match iovecs, base with
  | some _, some base =>
      if u64 (bcount * bsize) < bcount * bsize then throw (.fault .oob)
      else pure (0, objIovecs base bcount bsize offset maxOffset)
  | _, _ => pure (-ENOMEM, [])

/-- How many blocks there are: `(max_index - 1) / block_size + 1`, which an empty object
has more of than it could be thought. -/
def objBlockCount (maxIndex bsize : ℕ) : ℕ := u64 (u64Sub maxIndex 1 / bsize + 1)

/-! ### A stretch of blocks -/

/-- The vectors cover the bytes from `start` to `stop` in order, in buffers that do not
overlap. -/
structure Stretch (iov : List (MioIovec ℕ)) (start stop : ℕ) : Prop where
  /-- There are such bytes. -/
  lt : start < stop
  /-- Proper ranges. -/
  ok : RangesOk iov
  /-- Buffers of their own. -/
  bufApart : iov.Pairwise MioIovec.BufApart
  /-- The bytes. -/
  covers : ∀ x, CoversByte iov x ↔ start ≤ x ∧ x < stop

section Stretch

variable {iov : List (MioIovec ℕ)} {start stop : ℕ}

theorem Stretch.ne_nil (h : Stretch iov start stop) : iov ≠ [] := by
  rintro rfl
  obtain ⟨v, hv, -⟩ := (h.covers start).mpr ⟨le_rfl, h.lt⟩
  exact absurd hv List.not_mem_nil

/-- A range of a stretch lies inside. -/
theorem Stretch.inside (h : Stretch iov start stop) {v : MioIovec ℕ} (hv : v ∈ iov) :
    start ≤ v.miovOff ∧ v.stop ≤ stop := by
  have hpos := h.ok.pos v hv
  have h1 := (h.covers v.miovOff).mp ⟨v, hv, le_rfl, by simp only [MioIovec.stop]; omega⟩
  have h2 := (h.covers (v.stop - 1)).mp ⟨v, hv, by simp only [MioIovec.stop]; omega, by
    simp only [MioIovec.stop]; omega⟩
  exact ⟨h1.1, by omega⟩

/-- The end of a stretch is where its last range ends. -/
theorem Stretch.maxEnd_eq (h : Stretch iov start stop) : maxEnd iov = stop := by
  refine le_antisymm (maxEnd_le fun v hv => (h.inside hv).2) ?_
  obtain ⟨v, hv, -, hlt⟩ := (h.covers (stop - 1)).mpr ⟨by have := h.lt; omega, by
    have := h.lt; omega⟩
  have := stop_le_maxEnd hv
  omega

/-- **A stretch is written as it has been read**: from buffers that hold the bytes of an
object, the same bytes go to the same place. -/
theorem Stretch.writeRanges_eq (h : Stretch iov start stop) {app src : ℕ → Byte}
    (hfill : ∀ v ∈ iov, ∀ i < v.miovLen, app (v.miovBase + i) = src (v.miovOff + i))
    (bytes : ℕ → Byte) (x : ℕ) :
    writeRanges app iov bytes x = if start ≤ x ∧ x < stop then src x else bytes x := by
  split
  · next hx =>
    refine writeRanges_of_mem ((h.covers x).mpr hx) fun v hv hvx => ?_
    have hlt : x - v.miovOff < v.miovLen := by
      have h1 := hvx.1
      have h2 := hvx.2
      simp only [MioIovec.stop] at h2
      omega
    rw [hfill v hv _ hlt, Nat.add_sub_cancel' hvx.1]
  · next hx => exact writeRanges_of_not_mem fun v hv hvx => hx ((h.covers x).mp ⟨v, hv, hvx⟩)

/-- Of pages that are all the same there is at most one. -/
theorem length_rbwPages_le_one {ps size : ℕ} (q₀ : ℕ)
    (h : ∀ q, ReadFirst ps size iov q → q = q₀) : (rbwPages ps size iov).length ≤ 1 := by
  have hnodup : (rbwPages ps size iov).Nodup := List.nodup_range.filter _
  refine (List.Subperm.length_le (List.subperm_of_subset hnodup fun q hq => ?_)).trans_eq
    (List.length_singleton (a := q₀))
  rw [List.mem_singleton]
  exact h q (mem_rbwPages.mp hq)

/-- **At most one page has to be read first** of a stretch that starts at the end of the
object, or whose blocks are made of pages. -/
theorem Stretch.length_rbwPages_le (h : Stretch iov start stop) {ps size : ℕ}
    (hstart : size ≤ start ∨
      ∀ v ∈ iov, ps ∣ v.miovOff ∧ (v.stop = stop ∨ ps ∣ v.stop)) :
    (rbwPages ps size iov).length ≤ 1 := by
  rcases hstart with hsize | hpages
  · refine length_rbwPages_le_one (start / ps) fun q hq => ?_
    obtain ⟨hlt, ⟨v, hv, -, h1, -⟩, -⟩ := hq
    have h2 := (h.inside hv).1
    -- the page holds the first byte of the stretch
    refine (Nat.div_eq_of_lt_le ?_ ?_).symm
    · omega
    · rw [Nat.add_mul, Nat.one_mul]
      omega
  · refine length_rbwPages_le_one (stop / ps) fun q hq => ?_
    obtain ⟨-, ⟨v, hv, -, h1, h2, h3⟩, -⟩ := hq
    obtain ⟨⟨a, ha⟩, hstop⟩ := hpages v hv
    -- the range starts on a page, so what it does not fill is the page it ends in
    have hle : v.miovOff ≤ q * ps := by
      have hlt : a * ps < (q + 1) * ps := by rw [Nat.mul_comm a, ← ha, Nat.add_mul]; omega
      rw [ha, Nat.mul_comm]
      exact Nat.mul_le_mul_right ps (Nat.lt_succ_iff.mp (Nat.lt_of_mul_lt_mul_right hlt))
    have hlt : v.stop < q * ps + ps := by
      by_contra hge
      exact h3 ⟨hle, by omega⟩
    rcases hstop with hstop | ⟨b, hb⟩
    · refine (Nat.div_eq_of_lt_le ?_ ?_).symm
      · omega
      · rw [Nat.add_mul, Nat.one_mul]
        omega
    · have h4 : q * ps < b * ps := by rw [Nat.mul_comm b, ← hb]; exact h2
      have h5 : b * ps < (q + 1) * ps := by rw [Nat.mul_comm b, ← hb, Nat.add_mul]; omega
      have h6 := Nat.lt_of_mul_lt_mul_right h4
      have h7 := Nat.lt_of_mul_lt_mul_right h5
      omega

end Stretch

/-! ### The blocks of an op -/

/-- The numbers of blocks and bytes stay within 64 bits. -/
structure BlocksFit (bsize maxIndex : ℕ) : Prop where
  /-- A block is not empty. -/
  pos : 0 < bsize
  /-- The end of the last block. -/
  stop : maxIndex + bsize ≤ 2 ^ 64
  /-- The buffer of an op. -/
  buffer : mioCmdMaxBlockCountPerOp * bsize < 2 ^ 64

section Blocks

variable {bsize maxIndex : ℕ} (hfit : BlocksFit bsize maxIndex)

include hfit

/-- A block of an op. -/
theorem objIovec_eq {base offset i : ℕ} (hi : i < mioCmdMaxBlockCountPerOp)
    (hoff : offset + i * bsize < maxIndex) :
    objIovec base bsize offset maxIndex i =
      ⟨base + i * bsize, offset + i * bsize,
        min (offset + i * bsize + bsize) maxIndex - (offset + i * bsize)⟩ := by
  have hmul : i * bsize ≤ mioCmdMaxBlockCountPerOp * bsize := Nat.mul_le_mul_right _ hi.le
  have hstop := hfit.stop
  have hbuffer := hfit.buffer
  rw [objIovec, u64_of_lt (n := i * bsize) (by omega)]
  rw [u64_of_lt (n := offset + i * bsize) (by omega)]
  split
  · next hgt =>
    rw [u64_of_lt (by omega)] at hgt
    rw [u64Sub_of_le (by omega) (by omega), Nat.min_eq_right (by omega)]
  · next hle =>
    rw [u64_of_lt (by omega)] at hle
    rw [Nat.min_eq_left (by omega), Nat.add_sub_cancel_left]

/-- **The blocks of an op are a stretch** of the object, up to its size. -/
theorem stretch_objIovecs (base : ℕ) {bcount offset : ℕ} (hpos : 0 < bcount)
    (hmax : bcount ≤ mioCmdMaxBlockCountPerOp)
    (hoff : offset + (bcount - 1) * bsize < maxIndex) :
    Stretch (objIovecs base bcount bsize offset maxIndex) offset
      (min (offset + bcount * bsize) maxIndex) := by
  have hbs := hfit.pos
  have hstop := hfit.stop
  -- every block starts below the size
  have hblock : ∀ i < bcount, offset + i * bsize < maxIndex := fun i hi =>
    lt_of_le_of_lt (Nat.add_le_add_left (Nat.mul_le_mul_right _ (by omega)) _) hoff
  have heq : ∀ i < bcount, objIovec base bsize offset maxIndex i =
      ⟨base + i * bsize, offset + i * bsize,
        min (offset + i * bsize + bsize) maxIndex - (offset + i * bsize)⟩ := fun i hi =>
    objIovec_eq hfit (by omega) (hblock i hi)
  have hmem : ∀ {v : MioIovec ℕ}, v ∈ objIovecs base bcount bsize offset maxIndex ↔
      ∃ i < bcount, v = ⟨base + i * bsize, offset + i * bsize,
        min (offset + i * bsize + bsize) maxIndex - (offset + i * bsize)⟩ := by
    intro v
    simp only [objIovecs, List.mem_map, List.mem_range]
    refine exists_congr fun i => and_congr_right fun hi => ?_
    rw [heq i hi, eq_comm]
  have hpair : ∀ {R : MioIovec ℕ → MioIovec ℕ → Prop},
      (∀ i j, i < j → j < bcount → R
        ⟨base + i * bsize, offset + i * bsize,
          min (offset + i * bsize + bsize) maxIndex - (offset + i * bsize)⟩
        ⟨base + j * bsize, offset + j * bsize,
          min (offset + j * bsize + bsize) maxIndex - (offset + j * bsize)⟩) →
      (objIovecs base bcount bsize offset maxIndex).Pairwise R := by
    intro R hR
    refine List.pairwise_map.mpr ((List.pairwise_lt_range (n := bcount)).imp_of_mem ?_)
    intro i j hi hj hij
    rw [List.mem_range] at hi hj
    rw [heq i hi, heq j hj]
    exact hR i j hij hj
  have hnext : ∀ {i j : ℕ}, i < j → i * bsize + bsize ≤ j * bsize := fun {i j} hij => by
    rw [← Nat.succ_mul]
    exact Nat.mul_le_mul_right _ hij
  refine ⟨?_, ⟨?_, ?_, ?_⟩, ?_, fun x => ⟨?_, ?_⟩⟩
  · have h1 := Nat.le_mul_of_pos_left bsize hpos
    have h2 := hblock 0 hpos
    omega
  · intro v hv
    obtain ⟨i, hi, rfl⟩ := hmem.mp hv
    have := hblock i hi
    dsimp only
    omega
  · intro v hv
    obtain ⟨i, hi, rfl⟩ := hmem.mp hv
    have := hblock i hi
    simp only [MioIovec.NoWrap, MioIovec.stop]
    omega
  · refine hpair fun i j hij hj => Or.inl ?_
    have h1 := hnext hij
    have h2 := hblock i (by omega)
    simp only [MioIovec.stop]
    omega
  · refine hpair fun i j hij hj => Or.inl ?_
    have h1 := hnext hij
    dsimp only
    omega
  · rintro ⟨v, hv, h1, h2⟩
    obtain ⟨i, hi, rfl⟩ := hmem.mp hv
    have h3 := hnext hi
    have h4 := hblock i hi
    simp only [MioIovec.stop] at h1 h2
    omega
  · rintro ⟨h1, h2⟩
    -- the block that the byte is in
    have hdiv := Nat.div_add_mod (x - offset) bsize
    have hmod := Nat.mod_lt (x - offset) hbs
    rw [Nat.mul_comm] at hdiv
    have hlt : (x - offset) / bsize < bcount := by
      rw [Nat.div_lt_iff_lt_mul hbs]
      omega
    refine ⟨_, hmem.mpr ⟨_, hlt, rfl⟩, ?_, ?_⟩
    · dsimp only
      omega
    · simp only [MioIovec.stop]
      omega

/-- Blocks made of pages. -/
theorem dvd_objIovecs {ps base bcount offset : ℕ} (hmax : bcount ≤ mioCmdMaxBlockCountPerOp)
    (hoff : offset + (bcount - 1) * bsize < maxIndex) (hps : ps ∣ bsize) (hstart : ps ∣ offset) :
    ∀ v ∈ objIovecs base bcount bsize offset maxIndex,
      ps ∣ v.miovOff ∧ (v.stop = min (offset + bcount * bsize) maxIndex ∨ ps ∣ v.stop) := by
  intro v hv
  obtain ⟨i, hi, rfl⟩ := List.mem_map.mp hv
  rw [List.mem_range] at hi
  have hblock : offset + i * bsize < maxIndex :=
    lt_of_le_of_lt (Nat.add_le_add_left (Nat.mul_le_mul_right _ (by omega)) _) hoff
  have hle : i * bsize + bsize ≤ bcount * bsize := by
    rw [← Nat.succ_mul]
    exact Nat.mul_le_mul_right _ hi
  rw [objIovec_eq hfit (by omega) hblock]
  have hdvd : ps ∣ offset + i * bsize := Nat.dvd_add hstart (hps.mul_left i)
  refine ⟨hdvd, ?_⟩
  simp only [MioIovec.stop]
  rcases Nat.lt_or_ge maxIndex (offset + i * bsize + bsize) with hlt | hge
  · left
    omega
  · right
    rw [Nat.min_eq_left hge, Nat.add_sub_cancel' (Nat.le_add_right _ _)]
    exact Nat.dvd_add hdvd hps

/-- **Vectors for an op** have been allocated, or there is no memory. -/
theorem triple_objAllocIovecs {env : Env} {m : MotrStore} {bcount : ℕ} (offset : ℕ)
    (hmax : bcount ≤ mioCmdMaxBlockCountPerOp) :
    Triple (At m) (objAllocIovecs env bcount bsize offset maxIndex)
      (fun r s => ((r.1 < 0 ∧ env.Rough) ∨
        r.1 = 0 ∧ ∃ base, r.2 = objIovecs base bcount bsize offset maxIndex) ∧ At m s)
      (fun s => env.Rough ∧ At m s) := by
  have hbuffer := hfit.buffer
  have hle : bcount * bsize ≤ mioCmdMaxBlockCountPerOp * bsize := Nat.mul_le_mul_right _ hmax
  have hnomem : (-ENOMEM : ℤ) < 0 := by decide
  refine Triple.bind triple_ask fun iovecs => Triple.of_fact fun hiovecs =>
    Triple.bind triple_ask fun base => Triple.of_fact fun hbase => ?_
  cases iovecs with
  | none => exact Triple.pure fun s hs => ⟨Or.inl ⟨hnomem, Or.inr hiovecs⟩, hs⟩
  | some _ =>
    cases base with
    | none => exact Triple.pure fun s hs => ⟨Or.inl ⟨hnomem, Or.inr hbase⟩, hs⟩
    | some base =>
      dsimp only
      rw [u64_of_lt (by omega), if_neg (lt_irrefl _)]
      exact Triple.pure fun s hs => ⟨Or.inr ⟨rfl, base, rfl⟩, hs⟩

/-- The number of blocks of an object that is not empty. -/
theorem objBlockCount_eq (hpos : 0 < maxIndex) :
    objBlockCount maxIndex bsize = (maxIndex - 1) / bsize + 1 := by
  have hstop := hfit.stop
  have hbs := hfit.pos
  have hle := Nat.div_le_self (maxIndex - 1) bsize
  rw [objBlockCount, u64Sub_of_le (by omega) (by omega), u64_of_lt (by omega)]

end Blocks

end CortxMio
