import CortxMio.App.Blocks

/-!
# Files

What the example programs do with `FILE *`. They move the content of a file between its
blocks and buffers, one block after the other (`CortxMio.InRow`): `obj_read_data_from_file`
fills the buffers of an op from where the file stands, `obj_write_data_to_file` writes them
to where the op is in the object. Either may stop early, if it is not given all it asks for
(`CortxMio.Stdio`).
-/

namespace CortxMio

open Lib

/-- A file that is open: what is beyond its end counts as zero. -/
structure CFile where
  /-- Its bytes. -/
  bytes : ℕ → Byte
  /-- Its size. -/
  size : ℕ
  /-- The position. -/
  pos : ℕ

/-- A file that `fopen` has created. -/
def CFile.new : CFile := ⟨fun _ => 0, 0, 0⟩

/-- `fseek` to an offset from the start. -/
def CFile.fseek (f : CFile) (off : ℕ) : CFile := { f with pos := off }

/-- `fwrite` of some bytes: beyond the end, nothing is written for no bytes. -/
def CFile.fwrite (f : CFile) (len : ℕ) (data : ℕ → Byte) : CFile where
  bytes := fun x => if f.pos ≤ x ∧ x < f.pos + len then data (x - f.pos) else f.bytes x
  size := if len = 0 then f.size else max f.size (f.pos + len)
  pos := f.pos + len

theorem CFile.size_le_fwrite (f : CFile) (len : ℕ) (data : ℕ → Byte) :
    f.size ≤ (f.fwrite len data).size := by
  rw [CFile.fwrite]
  dsimp only
  split
  · exact le_rfl
  · exact Nat.le_max_left _ _

theorem CFile.fwrite_size_le {f : CFile} {len limit : ℕ} (h : f.size ≤ limit)
    (h' : f.pos + len ≤ limit) (data : ℕ → Byte) : (f.fwrite len data).size ≤ limit := by
  rw [CFile.fwrite]
  dsimp only
  split
  · exact h
  · exact max_le h h'

theorem CFile.size_fwrite {f : CFile} {len : ℕ} (h : 0 < len) (data : ℕ → Byte) :
    (f.fwrite len data).size = max f.size (f.pos + len) := if_neg (Nat.pos_iff_ne_zero.mp h)

/-- What is asked of the file system. -/
structure Stdio where
  /-- What `fopen` finds to be read, or `errno`. -/
  source : String → Except {n : ℕ // 0 < n} CFile
  /-- The `errno` of an `fopen` of a file to be written. -/
  dest : String → Option {n : ℕ // 0 < n}
  /-- Whether `fstat` succeeds. -/
  fstat : ℕ → Bool
  /-- How many bytes an `fread` or `fwrite` is cut off after. -/
  cut : ℕ → Option ℕ
  /-- `print_on_console`. -/
  printOnConsole : Bool

/-- Some call on a file is cut off. -/
def Stdio.Rough (io : Stdio) : Prop := (∃ t, io.fstat t = false) ∨ ∃ t, io.cut t ≠ none

/-- As many bytes as there are to be moved, and not cut off. -/
def upToCut (len : ℕ) : Option ℕ → ℕ
  | none => len
  | some n => min n len

/-- `fread` of one item of `len` bytes: how many have been read, the file, and memory. -/
def CFile.fread (f : CFile) (mem : ℕ → Byte) (base len : ℕ) (cut : Option ℕ) :
    ℕ × CFile × (ℕ → Byte) :=
  let n := upToCut (min len (f.size - f.pos)) cut
  (n, { f with pos := f.pos + n },
    fun a => if base ≤ a ∧ a < base + n then f.bytes (f.pos + (a - base)) else mem a)

/-- The loop of `obj_read_data_from_file`: an item of no bytes counts as none. -/
def freadAll (io : Stdio) : List (MioIovec ℕ) → CFile → (ℕ → Byte) →
    StoreM (ℕ × CFile × (ℕ → Byte))
  | [], f, mem => pure (0, f, mem)
  | v :: data, f, mem => do
      let cut ← ask io.cut
      let (n, f, mem) := f.fread mem v.miovBase v.miovLen cut
      if n = v.miovLen ∧ 0 < v.miovLen then
        let (i, f, mem) ← freadAll io data f mem
        pure (i + 1, f, mem)
      else pure (0, f, mem)

/-- `signature`, the letters of `MIOWR`. -/
def signature (i : ℕ) : Byte := [77, 73, 79, 87, 82].getD (i % 5) 0

/-- The pseudo data of `obj_read_data_from_file`, from a block on. -/
def pseudoData : ℕ → List (MioIovec ℕ) → (ℕ → Byte) → ℕ → Byte
  | _, [], mem => mem
  | i, v :: data, mem => pseudoData (i + 1) data fun a =>
      if v.miovBase ≤ a ∧ a < v.miovBase + v.miovLen then signature i else mem a

/-- `obj_read_data_from_file`. -/
def objReadDataFromFile (io : Stdio) (fp : Option CFile) (data : List (MioIovec ℕ))
    (mem : ℕ → Byte) : StoreM (ℕ × Option CFile × (ℕ → Byte)) :=
  match fp with
  | none => pure (data.length, none, pseudoData 0 data mem)
  | some f => do
      let (i, f, mem) ← freadAll io data f mem
      pure (i, some f, mem)

/-- The loop of `obj_write_data_to_file`. -/
def fwriteAll (io : Stdio) (mem : ℕ → Byte) : List (MioIovec ℕ) → CFile → StoreM (ℕ × CFile)
  | [], f => pure (0, f)
  | v :: data, f => do
      let cut ← ask io.cut
      let n := upToCut v.miovLen cut
      let f := f.fwrite n fun x => mem (v.miovBase + x)
      if n = v.miovLen ∧ 0 < v.miovLen then
        let (i, f) ← fwriteAll io mem data f
        pure (i + 1, f)
      else pure (0, f)

/-- `obj_write_data_to_file`, as far as there is a file. -/
def fwriteFrom (io : Stdio) (data : List (MioIovec ℕ)) (mem : ℕ → Byte) :
    Option CFile → StoreM (ℕ × Option CFile)
  | none => pure (0, none)
  | some f => do
      let (i, f) ← fwriteAll io mem data (f.fseek ((data.head?.map MioIovec.miovOff).getD 0))
      pure (i, some f)

/-- `obj_write_data_to_file`: what is printed counts as written. -/
def objWriteDataToFile (io : Stdio) (fp : Option CFile) (data : List (MioIovec ℕ))
    (mem : ℕ → Byte) : StoreM (ℕ × Option CFile) := do
  let (i, fp) ← fwriteFrom io data mem fp
  pure (if io.printOnConsole then data.length else i, fp)

/-! ### One block after the other -/

/-- One range after the other, from `start` on. -/
structure InRow (iov : List (MioIovec ℕ)) (start : ℕ) : Prop where
  /-- The first one. -/
  head : ∀ v, iov[0]? = some v → v.miovOff = start
  /-- The next one. -/
  next : ∀ j v w, iov[j]? = some v → iov[j + 1]? = some w → w.miovOff = v.stop

/-- A block of an op. -/
theorem getElem?_objIovecs {bsize maxIndex : ℕ} (hfit : BlocksFit bsize maxIndex) {base : ℕ}
    {bcount offset : ℕ} (hmax : bcount ≤ mioCmdMaxBlockCountPerOp)
    (hoff : offset + (bcount - 1) * bsize < maxIndex) {j : ℕ} {v : MioIovec ℕ}
    (hv : (objIovecs base bcount bsize offset maxIndex)[j]? = some v) :
    (j < bcount ∧ offset + j * bsize < maxIndex) ∧ v = ⟨base + j * bsize, offset + j * bsize,
      min (offset + j * bsize + bsize) maxIndex - (offset + j * bsize)⟩ := by
  rw [objIovecs, List.getElem?_map] at hv
  have hj : j < bcount := by
    by_contra hge
    rw [List.getElem?_eq_none (by simpa using hge)] at hv
    exact absurd hv (by simp)
  have hblock : offset + j * bsize < maxIndex :=
    lt_of_le_of_lt (Nat.add_le_add_left (Nat.mul_le_mul_right _ (by omega)) _) hoff
  rw [List.getElem?_range hj] at hv
  refine ⟨⟨hj, hblock⟩, ?_⟩
  rw [← objIovec_eq hfit (by omega) hblock]
  exact (Option.some.inj hv).symm

/-- The blocks of an op are in a row. -/
theorem inRow_objIovecs {bsize maxIndex : ℕ} (hfit : BlocksFit bsize maxIndex) (base : ℕ)
    {bcount offset : ℕ} (hmax : bcount ≤ mioCmdMaxBlockCountPerOp)
    (hoff : offset + (bcount - 1) * bsize < maxIndex) :
    InRow (objIovecs base bcount bsize offset maxIndex) offset := by
  refine ⟨fun v hv => ?_, fun j v w hv hw => ?_⟩
  · obtain ⟨-, rfl⟩ := getElem?_objIovecs hfit hmax hoff hv
    simp
  · obtain ⟨⟨-, h1⟩, rfl⟩ := getElem?_objIovecs hfit hmax hoff hv
    obtain ⟨⟨-, h2⟩, rfl⟩ := getElem?_objIovecs hfit hmax hoff hw
    have h3 : (j + 1) * bsize = j * bsize + bsize := Nat.succ_mul _ _
    simp only [MioIovec.stop]
    omega

/-- Where a row of ranges ends. -/
def rowEnd : ℕ → List (MioIovec ℕ) → ℕ
  | start, [] => start
  | _, v :: iov => rowEnd v.stop iov

section Rows

variable {iov : List (MioIovec ℕ)} {start stop : ℕ} {v : MioIovec ℕ}

theorem InRow.head_eq (h : InRow (v :: iov) start) : v.miovOff = start := h.head v rfl

theorem InRow.tail (h : InRow (v :: iov) start) : InRow iov v.stop :=
  ⟨fun w hw => h.next 0 v w rfl (by simpa using hw),
    fun j w w' hw hw' => h.next (j + 1) w w' (by simpa using hw) (by simpa using hw')⟩

theorem le_rowEnd (h : InRow iov start) : start ≤ rowEnd start iov := by
  induction iov generalizing start with
  | nil => exact le_rfl
  | cons v iov ih =>
    refine le_trans ?_ (ih h.tail)
    rw [← h.head_eq]
    exact Nat.le_add_right _ _

/-- A row has no gaps. -/
theorem InRow.coversByte (h : InRow iov start) (x : ℕ) :
    CoversByte iov x ↔ start ≤ x ∧ x < rowEnd start iov := by
  induction iov generalizing start with
  | nil =>
    simp only [CoversByte, rowEnd]
    constructor
    · rintro ⟨w, hw, -⟩
      exact absurd hw List.not_mem_nil
    · rintro ⟨hle, hlt⟩
      omega
  | cons v iov ih =>
    have hle := le_rowEnd h.tail
    have hoff := h.head_eq
    have hcons : CoversByte (v :: iov) x ↔ v.miovOff ≤ x ∧ x < v.stop ∨ CoversByte iov x := by
      simp [CoversByte, MioIovec.Has]
    have hstop : v.miovOff ≤ v.stop := Nat.le_add_right _ _
    rw [hcons, ih h.tail, rowEnd]
    omega

/-- A stretch in a row ends where the row does. -/
theorem Stretch.rowEnd_eq (h : Stretch iov start stop) (hrow : InRow iov start) :
    rowEnd start iov = stop := by
  have hlt := h.lt
  have hlast := (hrow.coversByte (stop - 1)).mp ((h.covers _).mpr ⟨by omega, by omega⟩)
  refine le_antisymm ?_ (by omega)
  by_contra hgt
  have := (h.covers stop).mp ((hrow.coversByte stop).mpr ⟨by omega, by omega⟩)
  omega

end Rows

/-! ### What the loops do -/

section Pseudo

variable {data : List (MioIovec ℕ)}

theorem pseudoData_keep (start : ℕ) (mem : ℕ → Byte) {a : ℕ} (ha : ∀ v ∈ data, ¬v.BufHas a) :
    pseudoData start data mem a = mem a := by
  induction data generalizing start mem with
  | nil => rfl
  | cons v data ih =>
    rw [pseudoData, ih _ _ fun w hw => ha w (List.mem_cons_of_mem _ hw), if_neg]
    exact ha v List.mem_cons_self

/-- A block of pseudo data is made of one letter. -/
theorem pseudoData_fill (hbuf : data.Pairwise MioIovec.BufApart) (start : ℕ) (mem : ℕ → Byte)
    {i : ℕ} {v : MioIovec ℕ} (hv : data[i]? = some v) {j : ℕ} (hj : j < v.miovLen) :
    pseudoData start data mem (v.miovBase + j) = signature (start + i) := by
  induction data generalizing start mem i with
  | nil => exact absurd hv (by simp)
  | cons w data ih =>
    obtain ⟨hapart, hbuf'⟩ := List.pairwise_cons.mp hbuf
    cases i with
    | zero =>
      obtain rfl : w = v := by simpa using hv
      -- the buffers of the blocks that come later are others
      rw [pseudoData, pseudoData_keep, if_pos ⟨by omega, by omega⟩, Nat.add_zero]
      intro u hu hhas
      have := hapart u hu
      simp only [MioIovec.BufApart, MioIovec.BufHas] at this hhas
      omega
    | succ i =>
      rw [pseudoData, ih hbuf' _ _ (by simpa using hv)]
      congr 1
      omega

end Pseudo

section Loops

variable {io : Stdio} {m : MotrStore}

/-- **Reading a row of blocks** fills the buffers, unless it is cut off. -/
theorem triple_freadAll {data : List (MioIovec ℕ)} (hbuf : data.Pairwise MioIovec.BufApart)
    (hpos : ∀ v ∈ data, 0 < v.miovLen) {f : CFile} (hrow : InRow data f.pos)
    (hin : ∀ v ∈ data, v.stop ≤ f.size) (mem : ℕ → Byte) :
    Triple (At m) (freadAll io data f mem)
      (fun r s => (r.2.1.bytes = f.bytes ∧ r.2.1.size = f.size ∧
        ((r.1 < data.length ∧ io.Rough) ∨ r.1 = data.length ∧
          r.2.1.pos = rowEnd f.pos data ∧
          (∀ v ∈ data, ∀ i < v.miovLen, r.2.2 (v.miovBase + i) = f.bytes (v.miovOff + i)) ∧
          ∀ a, (∀ v ∈ data, ¬v.BufHas a) → r.2.2 a = mem a)) ∧ At m s)
      (fun _ => False) := by
  induction data generalizing f mem with
  | nil =>
    refine Triple.pure fun s hs => ⟨⟨rfl, rfl, Or.inr ⟨rfl, rfl, ?_, fun _ _ => rfl⟩⟩, hs⟩
    exact fun v hv => absurd hv List.not_mem_nil
  | cons v data ih =>
    rw [freadAll]
    refine Triple.bind triple_ask fun cut => Triple.of_fact fun hcut => ?_
    obtain ⟨t, hcut⟩ := hcut
    have hlen := hpos v List.mem_cons_self
    have hoff := hrow.head_eq
    have hend : f.pos + v.miovLen = v.stop := by
      rw [← hoff]
      rfl
    have hinside := hin v List.mem_cons_self
    have hmin : min v.miovLen (f.size - f.pos) = v.miovLen := Nat.min_eq_left (by omega)
    simp only [CFile.fread, hmin]
    by_cases hall : upToCut v.miovLen cut = v.miovLen
    · rw [if_pos ⟨hall, hlen⟩, hall, hend]
      obtain ⟨hapart, hbuf'⟩ := List.pairwise_cons.mp hbuf
      refine Triple.bind (ih hbuf' (fun w hw => hpos w (List.mem_cons_of_mem _ hw))
        (f := { f with pos := v.stop }) hrow.tail
        (fun w hw => hin w (List.mem_cons_of_mem _ hw)) _) ?_
      rintro ⟨i, f', mem'⟩
      refine Triple.of_fact fun hrest => Triple.pure fun s hs => ⟨?_, hs⟩
      obtain ⟨hbytes, hsize, hread⟩ := hrest
      refine ⟨hbytes, hsize, hread.imp (fun h => ⟨Nat.succ_lt_succ h.1, h.2⟩) ?_⟩
      rintro ⟨hi, hposEnd, hfill, hkeep⟩
      refine ⟨congrArg Nat.succ hi, hposEnd, fun w hw j hj => ?_, fun a ha => ?_⟩
      · rcases List.mem_cons.mp hw with rfl | hw
        · -- the buffers of the blocks that come later are others
          simp only at hkeep ⊢
          rw [hkeep, if_pos ⟨by omega, by omega⟩, Nat.add_sub_cancel_left, hoff]
          intro u hu hhas
          have := hapart u hu
          simp only [MioIovec.BufApart, MioIovec.BufHas] at this hhas
          omega
        · exact hfill w hw j hj
      · simp only at hkeep ⊢
        rw [hkeep a fun u hu => ha u (List.mem_cons_of_mem _ hu), if_neg]
        exact ha v List.mem_cons_self
    · rw [if_neg fun h => hall h.1]
      refine Triple.pure fun s hs => ⟨⟨rfl, rfl, Or.inl ⟨Nat.succ_pos _, Or.inr ⟨t, ?_⟩⟩⟩, hs⟩
      rintro hnone
      rw [hcut] at hnone
      exact hall (by rw [hnone, upToCut])

/-- What has been written of a row of blocks, up to `last`. -/
structure FileUpTo (f f' : CFile) (src : ℕ → Byte) (last : ℕ) : Prop where
  /-- The position. -/
  pos : f'.pos = last
  /-- The size. -/
  size : f'.size = max f.size last
  /-- The bytes. -/
  bytes : ∀ x, f'.bytes x = if f.pos ≤ x ∧ x < last then src x else f.bytes x

/-- **Writing a row of blocks** writes what is in the buffers, up to where it is cut off. -/
theorem triple_fwriteAll {src mem : ℕ → Byte} {data : List (MioIovec ℕ)}
    (hpos : ∀ v ∈ data, 0 < v.miovLen)
    (hfill : ∀ v ∈ data, ∀ i < v.miovLen, mem (v.miovBase + i) = src (v.miovOff + i)) {f : CFile}
    (hle : f.pos ≤ f.size) (hrow : InRow data f.pos) :
    Triple (At m) (fwriteAll io mem data f)
      (fun r s => (∃ last, FileUpTo f r.2 src last ∧ f.pos ≤ last ∧ last ≤ rowEnd f.pos data ∧
        ((r.1 < data.length ∧ io.Rough) ∨ r.1 = data.length ∧ last = rowEnd f.pos data)) ∧
        At m s)
      (fun _ => False) := by
  induction data generalizing f with
  | nil =>
    refine Triple.pure fun s hs => ⟨⟨f.pos, ⟨rfl, (Nat.max_eq_left hle).symm, fun x => ?_⟩, le_rfl,
      le_rfl, Or.inr ⟨rfl, rfl⟩⟩, hs⟩
    rw [if_neg (by omega)]
  | cons v data ih =>
    rw [fwriteAll]
    refine Triple.bind triple_ask fun cut => Triple.of_fact fun hcut => ?_
    obtain ⟨t, hcut⟩ := hcut
    have hlen := hpos v List.mem_cons_self
    have hoff := hrow.head_eq
    have hend : f.pos + v.miovLen = v.stop := by
      rw [← hoff]
      rfl
    have hrest := le_rowEnd hrow.tail
    -- what is written of the first block
    have hfirst : ∀ n ≤ v.miovLen,
        FileUpTo f (f.fwrite n fun x => mem (v.miovBase + x)) src (f.pos + n) := by
      intro n hn
      refine ⟨rfl, ?_, fun x => ?_⟩
      · rw [CFile.fwrite]
        dsimp only
        split
        · omega
        · rfl
      · rw [CFile.fwrite]
        dsimp only
        split
        · next hx =>
          rw [hfill v List.mem_cons_self _ (by omega), hoff, Nat.add_sub_cancel' hx.1]
        · rfl
    dsimp only
    by_cases hall : upToCut v.miovLen cut = v.miovLen
    · rw [if_pos ⟨hall, hlen⟩, hall]
      have hone := hfirst v.miovLen le_rfl
      have hposEnd : (f.fwrite v.miovLen fun x => mem (v.miovBase + x)).pos = v.stop :=
        hone.pos.trans hend
      refine Triple.bind (ih (fun w hw => hpos w (List.mem_cons_of_mem _ hw))
        (fun w hw => hfill w (List.mem_cons_of_mem _ hw)) ?_ (by rw [hposEnd]; exact hrow.tail)) ?_
      · rw [hone.pos, hone.size]
        exact Nat.le_max_right _ _
      rintro ⟨i, f'⟩
      refine Triple.of_fact fun hwritten => Triple.pure fun s hs => ⟨?_, hs⟩
      obtain ⟨last, hupto, hge, hle', hcount⟩ := hwritten
      simp only [hposEnd] at hge hle' hcount
      refine ⟨last, ⟨hupto.pos, ?_, fun x => ?_⟩, by omega, hle',
        hcount.imp (fun h => ⟨Nat.succ_lt_succ h.1, h.2⟩) fun h => ⟨congrArg Nat.succ h.1, h.2⟩⟩
      · rw [hupto.size, hone.size, hend]
        omega
      · rw [hupto.bytes, hone.bytes, hposEnd, hend]
        by_cases hx : v.stop ≤ x ∧ x < last
        · rw [if_pos hx, if_pos ⟨by omega, hx.2⟩]
        · rw [if_neg hx]
          by_cases hx' : f.pos ≤ x ∧ x < v.stop
          · rw [if_pos hx', if_pos ⟨hx'.1, by omega⟩]
          · rw [if_neg hx', if_neg (by omega)]
    · rw [if_neg fun h => hall h.1]
      have hn : upToCut v.miovLen cut ≤ v.miovLen := by
        cases cut with
        | none => exact le_rfl
        | some n => exact Nat.min_le_right _ _
      refine Triple.pure fun s hs => ⟨⟨_, hfirst _ hn, Nat.le_add_right _ _, ?_,
        Or.inl ⟨Nat.succ_pos _, Or.inr ⟨t, ?_⟩⟩⟩, hs⟩
      · exact ((Nat.add_le_add_left hn _).trans_eq hend).trans hrest
      · rintro hnone
        rw [hcut] at hnone
        exact hall (by rw [hnone, upToCut])

end Loops

end CortxMio
