import CortxMio.Lib.SelectionSort
import CortxMio.Obj.Handle

/-!
# Planning a read or a write

Before a `readv` or `writev` sends anything to Motr it turns the application's
vectors into a plan (`struct motr_obj_rw_args`): the vectors are sorted by
offset and cut at page boundaries, so that what goes to Motr is made of whole
pages. A range's whole pages are taken straight from application memory, in
chunks of at most the size of one op; the page that a range covers only in part
gets an extra page of its own – shared with the neighbouring range when both end
in the same page – together with a copy between the two memories, and for a
write, if the page lies below the object's size, a read of the page before it is
written.

The arrays of the plan are lists, and their counts the lengths of these lists;
the plan of a request is built by one call and read by the post-processing
functions later.
-/

namespace CortxMio

open Lib

/-- `struct motr_obj_rw_args`. -/
structure MotrObjRwArgs where
  /-- Whether this is a write. -/
  rwaIsWrite : Bool
  /-- End of write: the largest end of a range. -/
  rwaMaxEow : ℕ
  /-- The application's vectors. -/
  rwaOrigIovs : List (MioIovec ℕ)
  /-- The same, sorted. -/
  rwaSortedIovs : List (MioIovec ℕ)
  /-- How many aligned vectors have been sent to Motr. -/
  rwaAlignedProgress : ℕ
  /-- The aligned vectors. -/
  rwaAlignedIovs : List (MioIovec Ptr)
  /-- How many read-before-write vectors have been sent to Motr. -/
  rwaRbwProgress : ℕ
  /-- The read-before-write vectors. -/
  rwaRbwIovs : List (MioIovec Ptr)
  /-- The copies between application memory and extra pages, source first;
  an offset here is one inside the memory area. -/
  rwaDcIovs : List (MioIovec Ptr × MioIovec Ptr)
  /-- How many extra pages have been allocated. -/
  rwaNrExtraPages : ℕ
  deriving DecidableEq

variable (conf : MioMotrConfig) (obj : MioObj)

/-! ### Allocation -/

/-- One round of the loop of `motr_obj_rw_args_estimate_iovcnts`. -/
def estimateAlignedCnt (max len : ℕ) : ℕ := u64Sub (u64 (len + max)) 1 / max + 2

/-- `motr_obj_rw_args_estimate_iovcnts`: the sizes of the arrays, for the
aligned vectors and for the copies. -/
def motrObjRwArgsEstimateIovcnts (iovs : List (MioIovec ℕ)) : Except Fault (ℕ × ℕ) := do
  let max ← motrObjMaxSizePerOp conf obj
  if max = 0 ∧ iovs ≠ [] then .error .divByZero
  else .ok ((iovs.map fun v => estimateAlignedCnt max v.miovLen).sum, 2 * iovs.length)

/-- `motr_obj_rw_args_alloc`: whatever the estimate fails with, the caller only
sees that there is no plan. -/
def motrObjRwArgsAlloc (isWrite : Bool) (iovs : List (MioIovec ℕ)) :
    Except Fault MotrObjRwArgs :=
  match motrObjRwArgsEstimateIovcnts conf obj iovs with
  | .error (.err _) => .error (.err (-ENOMEM))
  | .error f => .error f
  | .ok _ => .ok ⟨isWrite, 0, iovs, [], 0, [], 0, [], [], 0⟩

/-! ### Sorting -/

/-- The loop of `motr_obj_iovec_sort` that looks for overlapping neighbours and
for the end of the write; `prev` is the vector before the next one. -/
def motrObjIovecSortCheck (isWrite : Bool) :
    ℕ → MioIovec ℕ → List (MioIovec ℕ) → ℤ × ℕ
  | maxEow, _, [] => (0, maxEow)
  | maxEow, prev, v :: vs =>
      if v.miovOff < u64 prev.stop then (-EINVAL, maxEow)
      else motrObjIovecSortCheck isWrite
        (if isWrite ∧ maxEow < u64 v.stop then u64 v.stop else maxEow) v vs

/-- `motr_obj_iovec_sort`. The code reads the end of the first vector before it
looks at the number of vectors; for no vectors at all the value is never used. -/
def motrObjIovecSort (args : MotrObjRwArgs) : ℤ × MotrObjRwArgs :=
  let sorted := selectionSort MioIovec.miovOff args.rwaOrigIovs
  let (rc, maxEow) := match sorted with
    | [] => (0, 0)
    | v :: vs => motrObjIovecSortCheck args.rwaIsWrite (u64 v.stop) v vs
  (rc, { args with
    rwaSortedIovs := sorted
    rwaMaxEow := if args.rwaIsWrite ∧ rc = 0 then maxEow else args.rwaMaxEow })

/-! ### Aligning -/

/-- The copy of a part of a page: from the application to the page for a write,
the other way for a read. -/
def dcPair (isWrite : Bool) (pagesize off len base : ℕ) (page : Ptr) :
    MioIovec Ptr × MioIovec Ptr :=
  if isWrite then (⟨.app base, 0, len⟩, ⟨page, off % pagesize, len⟩)
  else (⟨page, off % pagesize, len⟩, ⟨.app base, 0, len⟩)

/-- `motr_obj_iovec_get_page` together with the book-keeping of the new page and
the read-before-write vector of a write. No reads beyond the object size are
issued. -/
def motrObjIovecGetPage (args : MotrObjRwArgs) (alignedOff : ℕ) : MotrObjRwArgs :=
  let iov : MioIovec Ptr := ⟨.page args.rwaNrExtraPages 0, alignedOff, motrObjIoPagesize obj⟩
  { args with
    rwaAlignedIovs := args.rwaAlignedIovs ++ [iov]
    rwaNrExtraPages := args.rwaNrExtraPages + 1
    rwaRbwIovs := if args.rwaIsWrite ∧ alignedOff < obj.size then args.rwaRbwIovs ++ [iov]
      else args.rwaRbwIovs }

/-- `motr_obj_iovec_partial_page`: use the page of the vector before, if it is
the same, or a new one. -/
def motrObjIovecPartialPage (args : MotrObjRwArgs) (off len base : ℕ) : MotrObjRwArgs :=
  if len = 0 then args
  else
    let pagesize := motrObjIoPagesize obj
    let alignedOff := off / pagesize * pagesize
    let (args, page) : MotrObjRwArgs × Ptr := match args.rwaAlignedIovs.getLast? with
      | some prev =>
          if prev.miovOff = alignedOff then (args, prev.miovBase)
          else (motrObjIovecGetPage obj args alignedOff, .page args.rwaNrExtraPages 0)
      | none => (motrObjIovecGetPage obj args alignedOff, .page args.rwaNrExtraPages 0)
    { args with
      rwaDcIovs := args.rwaDcIovs ++ [dcPair args.rwaIsWrite pagesize off len base page] }

/-- The loop of `motr_obj_iovec_clone`: `stop` is the end the offset is compared
with. Each round but one that a zero limit stalls takes something off
`lenLeft`. -/
def motrObjIovecCloneLoop (max stop : ℕ) :
    ℕ → ℕ → ℕ → ℕ → MotrObjRwArgs → Except Fault MotrObjRwArgs
  | fuel, off1, lenLeft, base1, args =>
      if off1 < stop then
        match fuel with
        | 0 => .error .diverge
        | fuel + 1 =>
            let len1 := if lenLeft > max then max else lenLeft
            motrObjIovecCloneLoop max stop fuel (u64 (off1 + len1)) (lenLeft - len1)
              (base1 + len1)
              { args with rwaAlignedIovs := args.rwaAlignedIovs ++ [⟨.app base1, off1, len1⟩] }
      else .ok args

/-- `motr_obj_iovec_clone`. -/
def motrObjIovecClone (args : MotrObjRwArgs) (off len base : ℕ) : Except Fault MotrObjRwArgs := do
  let max ← motrObjMaxSizePerOp conf obj
  let pagesize := motrObjIoPagesize obj
  if off % pagesize ≠ 0 ∨ len % pagesize ≠ 0 then .error (.err (-EINVAL))
  else motrObjIovecCloneLoop max (u64 (off + len)) len off len base args

/-- `motr_obj_iovec_split_3`. -/
def motrObjIovecSplit3 (args : MotrObjRwArgs) (iov : MioIovec ℕ) : Except Fault MotrObjRwArgs := do
  let pagesize := motrObjIoPagesize obj
  let off := iov.miovOff
  let len := iov.miovLen
  let firstPage := off / pagesize
  let lastPage := u64Sub (u64 (off + len)) 1 / pagesize
  if u64Sub lastPage firstPage < 2 then .error (.err (-EINVAL))
  else
    -- the first part
    let len1 := pagesize - off % pagesize
    let args := motrObjIovecPartialPage obj args off len1 iov.miovBase
    -- the second part: all pages but the last, or with it if the end is aligned
    let base2 := iov.miovBase + len1
    let off2 := u64 (off + len1)
    let len2 := if u64 (off + len) % pagesize ≠ 0
      then u64 (u64Sub (u64Sub lastPage firstPage) 1 * pagesize)
      else u64 (u64Sub lastPage firstPage * pagesize)
    let args ← ignoreRc args (motrObjIovecClone conf obj args off2 len2 base2)
    -- the third part
    let off3 := u64 (off2 + len2)
    let len3 := u64Sub (u64Sub len len1) len2
    let base3 := base2 + len2
    if len3 ≠ 0 then .ok (motrObjIovecPartialPage obj args off3 len3 base3) else .ok args

/-- `motr_obj_iovec_split_2`. -/
def motrObjIovecSplit2 (args : MotrObjRwArgs) (iov : MioIovec ℕ) : Except Fault MotrObjRwArgs := do
  let pagesize := motrObjIoPagesize obj
  let off := iov.miovOff
  let len := iov.miovLen
  let len1 := if off % pagesize = 0 then u64Sub len (u64 (off + len) % pagesize)
    else pagesize - off % pagesize
  -- the first part
  let args ← if off % pagesize = 0
    then ignoreRc args (motrObjIovecClone conf obj args off len1 iov.miovBase)
    else .ok (motrObjIovecPartialPage obj args off len1 iov.miovBase)
  -- the second part
  let off2 := u64 (off + len1)
  let len2 := u64Sub len len1
  let base2 := iov.miovBase + len1
  if len2 = pagesize then ignoreRc args (motrObjIovecClone conf obj args off2 len2 base2)
  else .ok (motrObjIovecPartialPage obj args off2 len2 base2)

/-- `motr_obj_iovec_adjust_with_nonaligned_off`. -/
def motrObjIovecAdjustWithNonalignedOff (args : MotrObjRwArgs) (iov : MioIovec ℕ) :
    Except Fault MotrObjRwArgs :=
  let pagesize := motrObjIoPagesize obj
  let firstPage := iov.miovOff / pagesize
  let lastPage := u64Sub (u64 (iov.miovOff + iov.miovLen)) 1 / pagesize
  if firstPage = lastPage then
    .ok (motrObjIovecPartialPage obj args iov.miovOff iov.miovLen iov.miovBase)
  else if lastPage = u64 (firstPage + 1) then motrObjIovecSplit2 conf obj args iov
  else motrObjIovecSplit3 conf obj args iov

/-- `motr_obj_iovec_adjust_with_aligned_off`. -/
def motrObjIovecAdjustWithAlignedOff (args : MotrObjRwArgs) (iov : MioIovec ℕ) :
    Except Fault MotrObjRwArgs :=
  if iov.miovLen > motrObjIoPagesize obj then motrObjIovecSplit2 conf obj args iov
  else .ok (motrObjIovecPartialPage obj args iov.miovOff iov.miovLen iov.miovBase)

/-- One round of the loop of `motr_obj_iovec_adjust`. -/
def motrObjIovecAdjustOne (args : MotrObjRwArgs) (iov : MioIovec ℕ) :
    Except Fault MotrObjRwArgs :=
  let pagesize := motrObjIoPagesize obj
  if iov.miovOff % pagesize = 0 ∧ iov.miovLen % pagesize = 0 then
    ignoreRc args (motrObjIovecClone conf obj args iov.miovOff iov.miovLen iov.miovBase)
  else if iov.miovOff % pagesize = 0 ∧ iov.miovLen % pagesize ≠ 0 then
    motrObjIovecAdjustWithAlignedOff conf obj args iov
  else motrObjIovecAdjustWithNonalignedOff conf obj args iov

/-- `motr_obj_iovec_adjust`. -/
def motrObjIovecAdjust (args : MotrObjRwArgs) : Except Fault MotrObjRwArgs :=
  args.rwaSortedIovs.foldlM (motrObjIovecAdjustOne conf obj) args

/-! ### Copying -/

/-- One round of the loop of `motr_obj_data_copy`. -/
def dcCopy (c : MioIovec Ptr × MioIovec Ptr) : Copy Ptr where
  dst := c.2.miovBase.add c.2.miovOff
  src := c.1.miovBase.add c.1.miovOff
  len := c.2.miovLen

/-- `motr_obj_data_copy`. -/
def motrObjDataCopy (args : MotrObjRwArgs) (mem : Mem) : Mem :=
  copyAll (args.rwaDcIovs.map dcCopy) mem

/-! ### Reads that a write does not need -/

/-- The inner loop of `motr_obj_read_before_write_optimise`: how far the copies
that follow extend the part of the page covered so far. -/
def rbwCoveredLen (pagesize : ℕ) (base : Ptr) (stOff : ℕ) : ℕ → List (MioIovec Ptr) → ℕ
  | len, [] => len
  | len, d :: ds =>
      if len = pagesize then len
      else if base ≠ d.miovBase then len
      else if d.miovOff > stOff + len then len
      else rbwCoveredLen pagesize base stOff (len + d.miovLen) ds

/-- The outer loop of `motr_obj_read_before_write_optimise`: the read-before-write
vectors still to be looked at, and the destinations of the copies from the cursor
on. A page whose first copy does not start it ends the whole scan. -/
def motrObjReadBeforeWriteOptimiseLoop (pagesize : ℕ) :
    List (MioIovec Ptr) → List (MioIovec Ptr) → Except Fault (List (MioIovec Ptr))
  | [], _ => .ok []
  | r :: rs, ds =>
      match ds.dropWhile fun d => r.miovBase ≠ d.miovBase with
      | [] => .error .oob
      | d :: ds' =>
          if d.miovOff ≠ 0 then .ok (r :: rs)
          else do
            let len := rbwCoveredLen pagesize d.miovBase d.miovOff d.miovLen ds'
            let rs' ← motrObjReadBeforeWriteOptimiseLoop pagesize rs (d :: ds')
            -- a whole page is found: leave a vector of length zero behind
            .ok ((if len = pagesize then { r with miovOff := 0, miovLen := 0 } else r) :: rs')

/-- `motr_obj_read_before_write_optimise`. -/
def motrObjReadBeforeWriteOptimise (args : MotrObjRwArgs) : Except Fault MotrObjRwArgs := do
  let rbw ← motrObjReadBeforeWriteOptimiseLoop (motrObjIoPagesize obj) args.rwaRbwIovs
    (args.rwaDcIovs.map Prod.snd)
  .ok { args with rwaRbwIovs := rbw }

end CortxMio
