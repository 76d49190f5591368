import CortxMio.Obj.Sort
import Mathlib.Data.List.Pairwise
import Mathlib.Tactic.Ring

/-!
# Cutting a range at page boundaries

The splitting functions of the planner distinguish the cases of a range by the
alignment of its two ends and by the number of pages it touches. All of them
come to the same: a *head* up to the first page boundary, as many *whole* pages
as there are after it, and a *tail* (`CortxMio.rangePieces`). The theorem
`CortxMio.motrObjIovecAdjustOne_eq` says so for every range that does not wrap,
empty ranges included, and from it on the planner is a fold over pieces
(`CortxMio.motrObjIovecAdjust_eq`). The last section says where the pieces of a
range lie.
-/

namespace CortxMio

open Lib

/-- A part of a range: whole pages, or less than one page. -/
structure Piece where
  /-- Offset in the object. -/
  off : ℕ
  /-- Length. -/
  len : ℕ
  /-- Address in application memory. -/
  base : ℕ
  /-- Whether the piece is made of whole pages. -/
  whole : Bool
  deriving DecidableEq, Repr

/-- The length of the head of a range: what lies before its first page
boundary. -/
def headLen (ps off len : ℕ) : ℕ := if off % ps = 0 then 0 else min len (ps - off % ps)

/-- The length of the whole pages of a range. -/
def midLen (ps off len : ℕ) : ℕ := (len - headLen ps off len) / ps * ps

/-- The length of the tail of a range. -/
def tailLen (ps off len : ℕ) : ℕ := (len - headLen ps off len) % ps

theorem headLen_le (ps off len : ℕ) : headLen ps off len ≤ len := by
  rw [headLen]
  split
  · exact Nat.zero_le _
  · exact Nat.min_le_left _ _

/-- The three lengths add up. -/
theorem head_mid_tail (ps off len : ℕ) :
    headLen ps off len + midLen ps off len + tailLen ps off len = len := by
  have h1 := headLen_le ps off len
  have h2 := Nat.div_add_mod' (len - headLen ps off len) ps
  rw [midLen, tailLen]
  omega

/-- A piece, if it is not empty. -/
def pieceIf (off len base : ℕ) (whole : Bool) : List Piece :=
  if len = 0 then [] else [⟨off, len, base, whole⟩]

/-- The pieces of a range. -/
def rangePieces (ps : ℕ) (v : MioIovec ℕ) : List Piece :=
  let h := headLen ps v.miovOff v.miovLen
  let m := midLen ps v.miovOff v.miovLen
  pieceIf v.miovOff h v.miovBase false ++
    pieceIf (v.miovOff + h) m (v.miovBase + h) true ++
    pieceIf (v.miovOff + h + m) (tailLen ps v.miovOff v.miovLen) (v.miovBase + h + m) false

/-- The pieces of a list of ranges. -/
def allPieces (ps : ℕ) (vs : List (MioIovec ℕ)) : List Piece := vs.flatMap (rangePieces ps)

/-- Whole pages in chunks of at most the size of one op, in at most `fuel`
chunks. -/
def chunks (max : ℕ) : ℕ → ℕ → ℕ → ℕ → List (MioIovec Ptr)
  | 0, _, _, _ => []
  | fuel + 1, off, len, base =>
      if len = 0 then []
      else ⟨.app base, off, min len max⟩ ::
        chunks max fuel (off + min len max) (len - min len max) (base + min len max)

@[simp] theorem chunks_len_zero (max fuel off base : ℕ) : chunks max fuel off 0 base = [] := by
  cases fuel <;> simp [chunks]

/-- What the planner does with a piece. -/
def addPiece (obj : MioObj) (max : ℕ) (args : MotrObjRwArgs) (p : Piece) : MotrObjRwArgs :=
  if p.whole then
    { args with rwaAlignedIovs := args.rwaAlignedIovs ++ chunks max p.len p.off p.len p.base }
  else motrObjIovecPartialPage obj args p.off p.len p.base

/-- Empty pieces may as well be there. -/
theorem foldl_pieceIf (obj : MioObj) (max : ℕ) (args : MotrObjRwArgs) (off len base : ℕ)
    (whole : Bool) :
    (pieceIf off len base whole).foldl (addPiece obj max) args =
      addPiece obj max args ⟨off, len, base, whole⟩ := by
  by_cases hlen : len = 0
  · subst hlen
    cases whole <;> simp [pieceIf, addPiece, motrObjIovecPartialPage]
  · simp [pieceIf, hlen]

theorem addPiece_whole_zero (obj : MioObj) (max : ℕ) (args : MotrObjRwArgs) (off base : ℕ) :
    addPiece obj max args ⟨off, 0, base, true⟩ = args := by
  simp [addPiece]

theorem addPiece_part_zero (obj : MioObj) (max : ℕ) (args : MotrObjRwArgs) (off base : ℕ) :
    addPiece obj max args ⟨off, 0, base, false⟩ = args := by
  simp [addPiece, motrObjIovecPartialPage]

theorem foldl_rangePieces (obj : MioObj) (max ps : ℕ) (args : MotrObjRwArgs) (v : MioIovec ℕ) :
    (rangePieces ps v).foldl (addPiece obj max) args =
      addPiece obj max
        (addPiece obj max
          (addPiece obj max args
            ⟨v.miovOff, headLen ps v.miovOff v.miovLen, v.miovBase, false⟩)
          ⟨v.miovOff + headLen ps v.miovOff v.miovLen, midLen ps v.miovOff v.miovLen,
            v.miovBase + headLen ps v.miovOff v.miovLen, true⟩)
        ⟨v.miovOff + headLen ps v.miovOff v.miovLen + midLen ps v.miovOff v.miovLen,
          tailLen ps v.miovOff v.miovLen,
          v.miovBase + headLen ps v.miovOff v.miovLen + midLen ps v.miovOff v.miovLen, false⟩ := by
  simp only [rangePieces, List.foldl_append, foldl_pieceIf]

/-- The last page of what starts with a head of page `q` and goes on for `rest` bytes, by
whether its end is aligned. -/
theorem div_end_sub_one {ps q rest : ℕ} (hps : 0 < ps) (hrest : ps ≤ rest) :
    ((q + 1) * ps + rest - 1) / ps =
      if rest % ps ≠ 0 then q + 1 + rest / ps else q + rest / ps := by
  have hrdm := Nat.div_add_mod' rest ps
  have hrlt := Nat.mod_lt rest hps
  have hqq : (q + 1) * ps = q * ps + ps := by ring
  by_cases hz : rest % ps = 0
  · rw [if_neg (not_not.mpr hz)]
    have hpos : 0 < rest / ps := Nat.div_pos hrest hps
    obtain ⟨k, hk⟩ : ∃ k, rest / ps = k + 1 := ⟨rest / ps - 1, by omega⟩
    have hkk : (k + 1) * ps = k * ps + ps := by ring
    rw [hk] at hrdm ⊢
    rw [show (q + 1) * ps + rest - 1 = (ps - 1) + (q + (k + 1)) * ps by
      rw [Nat.add_mul q (k + 1) ps]; omega, Nat.add_mul_div_right _ _ hps,
      Nat.div_eq_of_lt (by omega), Nat.zero_add]
  · rw [if_pos hz]
    rw [show (q + 1) * ps + rest - 1 = (rest % ps - 1) + (q + 1 + rest / ps) * ps by
      rw [Nat.add_mul (q + 1) (rest / ps) ps]; omega, Nat.add_mul_div_right _ _ hps,
      Nat.div_eq_of_lt (by omega), Nat.zero_add]

/-! ### Cloning -/

section Clone

variable {conf : MioMotrConfig} {obj : MioObj} {max : ℕ}

/-- The loop of the clone makes the chunks. -/
theorem motrObjIovecCloneLoop_eq (hpos : 0 < max) {stop : ℕ} (hstop : stop < 2 ^ 64) :
    ∀ (fuel off1 lenLeft base1 : ℕ) (args : MotrObjRwArgs), off1 + lenLeft = stop →
      lenLeft ≤ fuel →
      motrObjIovecCloneLoop max stop fuel off1 lenLeft base1 args =
        .ok { args with rwaAlignedIovs :=
          args.rwaAlignedIovs ++ chunks max fuel off1 lenLeft base1 } := by
  intro fuel
  induction fuel with
  | zero =>
    intro off1 lenLeft base1 args hoff hfuel
    rw [motrObjIovecCloneLoop, if_neg (by omega)]
    simp [chunks]
  | succ fuel ih =>
    intro off1 lenLeft base1 args hoff hfuel
    by_cases hlen : lenLeft = 0
    · rw [motrObjIovecCloneLoop, if_neg (by omega)]
      simp [hlen]
    · have hmin : (if lenLeft > max then max else lenLeft) = min lenLeft max := by
        split <;> omega
      have hu : u64 (off1 + min lenLeft max) = off1 + min lenLeft max := u64_of_lt (by omega)
      rw [motrObjIovecCloneLoop, if_pos (by omega)]
      simp only [hmin, hu]
      rw [ih _ _ _ _ (by omega) (by omega), chunks, if_neg hlen]
      simp

/-- **Cloning whole pages adds their chunks.** -/
theorem motrObjIovecClone_eq (hmax : motrObjMaxSizePerOp conf obj = .ok max) (hpos : 0 < max)
    (args : MotrObjRwArgs) {off len : ℕ} (base : ℕ) (hwrap : off + len < 2 ^ 64)
    (hoff : off % motrObjIoPagesize obj = 0) (hlen : len % motrObjIoPagesize obj = 0) :
    motrObjIovecClone conf obj args off len base =
      .ok (addPiece obj max args ⟨off, len, base, true⟩) := by
  have hcond : ¬(off % motrObjIoPagesize obj ≠ 0 ∨ len % motrObjIoPagesize obj ≠ 0) := by
    simp [hoff, hlen]
  rw [motrObjIovecClone, hmax]
  change (if _ then _ else _) = _
  rw [if_neg hcond, u64_of_lt hwrap, motrObjIovecCloneLoop_eq hpos hwrap _ _ _ _ _ rfl le_rfl]
  simp [addPiece]

end Clone

/-! ### The cases of a range -/

section Cases

variable {conf : MioMotrConfig} {obj : MioObj} {max : ℕ}
  (hmax : motrObjMaxSizePerOp conf obj = .ok max) (hpos : 0 < max)

include hmax hpos

/-- An aligned offset, more than a page, and an end in the middle of a page. -/
theorem motrObjIovecSplit2_aligned (args : MotrObjRwArgs) {v : MioIovec ℕ} (hwrap : v.NoWrap)
    (hoff : v.miovOff % motrObjIoPagesize obj = 0)
    (hlen : v.miovLen % motrObjIoPagesize obj ≠ 0) :
    motrObjIovecSplit2 conf obj args v =
      .ok ((rangePieces (motrObjIoPagesize obj) v).foldl (addPiece obj max) args) := by
  obtain ⟨base, off, len⟩ := v
  simp only [MioIovec.NoWrap, MioIovec.stop] at hwrap hoff hlen
  have hps := motrObjIoPagesize_pos obj
  obtain ⟨ps, hps'⟩ : ∃ ps, ps = motrObjIoPagesize obj := ⟨_, rfl⟩
  rw [← hps'] at hoff hlen hps
  have hdm := Nat.div_add_mod' len ps
  have hlt := Nat.mod_lt len hps
  have hend : (off + len) % ps = len % ps := by
    rw [Nat.add_mod, hoff, Nat.zero_add, Nat.mod_mod]
  have hh : headLen ps off len = 0 := by rw [headLen, if_pos hoff]
  have hm : midLen ps off len = len / ps * ps := by rw [midLen, hh, Nat.sub_zero]
  have ht : tailLen ps off len = len % ps := by rw [tailLen, hh, Nat.sub_zero]
  have h1 : u64Sub len (len % ps) = len / ps * ps := by
    rw [u64Sub_of_le (by omega) (by omega)]
    omega
  have h2 : u64Sub len (len / ps * ps) = len % ps := by
    rw [u64Sub_of_le (by omega) (by omega)]
    omega
  have h3 : u64 (off + len / ps * ps) = off + len / ps * ps := u64_of_lt (by omega)
  rw [foldl_rangePieces, ← hps']
  simp only [hh, hm, ht, Nat.add_zero, addPiece_part_zero]
  rw [motrObjIovecSplit2, ← hps']
  simp only [hoff, if_true, u64_of_lt hwrap, hend, h1, h2, h3]
  rw [motrObjIovecClone_eq hmax hpos args base (by omega) (by rw [← hps']; exact hoff)
    (by rw [← hps']; exact Nat.mul_mod_left _ _)]
  change (if _ then _ else _) = _
  rw [if_neg (by omega)]
  rfl

/-- An unaligned offset and an end in the next page. -/
theorem motrObjIovecSplit2_nonaligned (args : MotrObjRwArgs) {v : MioIovec ℕ} (hwrap : v.NoWrap)
    (hoff : v.miovOff % motrObjIoPagesize obj ≠ 0)
    (hlo : motrObjIoPagesize obj < v.miovOff % motrObjIoPagesize obj + v.miovLen)
    (hhi : v.miovOff % motrObjIoPagesize obj + v.miovLen ≤ 2 * motrObjIoPagesize obj) :
    motrObjIovecSplit2 conf obj args v =
      .ok ((rangePieces (motrObjIoPagesize obj) v).foldl (addPiece obj max) args) := by
  obtain ⟨base, off, len⟩ := v
  simp only [MioIovec.NoWrap, MioIovec.stop] at hwrap hoff hlo hhi
  have hps := motrObjIoPagesize_pos obj
  obtain ⟨ps, hps'⟩ : ∃ ps, ps = motrObjIoPagesize obj := ⟨_, rfl⟩
  rw [← hps'] at hoff hlo hhi hps
  have hlt := Nat.mod_lt off hps
  have hdm := Nat.div_add_mod' off ps
  obtain ⟨r, hr⟩ : ∃ r, r = off % ps := ⟨_, rfl⟩
  rw [← hr] at hoff hlo hhi hlt hdm
  have hh : headLen ps off len = ps - r := by
    rw [headLen, ← hr, if_neg hoff]
    omega
  have h2 : u64Sub len (ps - r) = len - (ps - r) := u64Sub_of_le (by omega) (by omega)
  have h3 : u64 (off + (ps - r)) = off + (ps - r) := u64_of_lt (by omega)
  rw [foldl_rangePieces, ← hps']
  rw [motrObjIovecSplit2, ← hps']
  simp only [← hr, hoff, if_false, h2, h3]
  change (if _ then _ else _) = _
  by_cases hfull : len - (ps - r) = ps
  · -- the second page is whole
    have hm : midLen ps off len = ps := by rw [midLen, hh, hfull, Nat.div_self hps, Nat.one_mul]
    have ht : tailLen ps off len = 0 := by rw [tailLen, hh, hfull, Nat.mod_self]
    have hal : (off + (ps - r)) % ps = 0 := by
      rw [show off + (ps - r) = (off / ps + 1) * ps by rw [Nat.add_mul, Nat.one_mul]; omega]
      exact Nat.mul_mod_left _ _
    rw [if_pos hfull, hh, hm, ht, hfull, addPiece_part_zero,
      motrObjIovecClone_eq hmax hpos _ _ (by omega) (by rw [← hps']; exact hal)
      (by rw [← hps']; exact Nat.mod_self _)]
    rfl
  · have hm : midLen ps off len = 0 := by
      rw [midLen, hh, Nat.div_eq_of_lt (by omega), Nat.zero_mul]
    have ht : tailLen ps off len = len - (ps - r) := by
      rw [tailLen, hh, Nat.mod_eq_of_lt (by omega)]
    rw [if_neg hfull, hh, hm, ht, addPiece_whole_zero]
    rfl

/-- An unaligned offset and an end beyond the next page. -/
theorem motrObjIovecSplit3_eq (args : MotrObjRwArgs) {v : MioIovec ℕ} (hwrap : v.NoWrap)
    (hoff : v.miovOff % motrObjIoPagesize obj ≠ 0)
    (hlo : 2 * motrObjIoPagesize obj < v.miovOff % motrObjIoPagesize obj + v.miovLen) :
    motrObjIovecSplit3 conf obj args v =
      .ok ((rangePieces (motrObjIoPagesize obj) v).foldl (addPiece obj max) args) := by
  obtain ⟨base, off, len⟩ := v
  simp only [MioIovec.NoWrap, MioIovec.stop] at hwrap hoff hlo
  have hps := motrObjIoPagesize_pos obj
  obtain ⟨ps, hps'⟩ : ∃ ps, ps = motrObjIoPagesize obj := ⟨_, rfl⟩
  rw [← hps'] at hoff hlo hps
  have hlt := Nat.mod_lt off hps
  have hdm := Nat.div_add_mod' off ps
  obtain ⟨r, hr⟩ : ∃ r, r = off % ps := ⟨_, rfl⟩
  obtain ⟨q, hq⟩ : ∃ q, q = off / ps := ⟨_, rfl⟩
  rw [← hr] at hoff hlo hlt hdm
  rw [← hq] at hdm
  -- what is left after the head starts at a page boundary
  obtain ⟨rest, hrest⟩ : ∃ rest, rest = len - (ps - r) := ⟨_, rfl⟩
  have hrdm := Nat.div_add_mod' rest ps
  have hrlt := Nat.mod_lt rest hps
  have hh : headLen ps off len = ps - r := by
    rw [headLen, ← hr, if_neg hoff]
    omega
  have hm : midLen ps off len = rest / ps * ps := by rw [midLen, hh, ← hrest]
  have ht : tailLen ps off len = rest % ps := by rw [tailLen, hh, ← hrest]
  have hqq : (q + 1) * ps = q * ps + ps := by ring
  have hend : off + len = (q + 1) * ps + rest := by omega
  have hendmod : (off + len) % ps = rest % ps := by
    rw [hend, Nat.add_comm, Nat.add_mul_mod_self_right]
  have hone : u64Sub (off + len) 1 = off + len - 1 := u64Sub_of_le (by omega) hwrap
  -- the last page, by whether the end is aligned
  have hlast : (off + len - 1) / ps =
      if rest % ps ≠ 0 then q + 1 + rest / ps else q + rest / ps := by
    rw [hend]
    exact div_end_sub_one hps (by omega)
  have hrpos : 0 < rest / ps := Nat.div_pos (by omega) hps
  have hlastlt : (off + len - 1) / ps < 2 ^ 64 :=
    lt_of_le_of_lt (Nat.div_le_self _ _) (by omega)
  have hbound : rest % ps = 0 → 2 ≤ rest / ps := by
    intro hz
    rw [hz, Nat.add_zero] at hrdm
    by_contra hcon
    have h1 : rest / ps = 1 := by omega
    rw [h1, Nat.one_mul] at hrdm
    omega
  have hdiff : u64Sub ((off + len - 1) / ps) q =
      if rest % ps ≠ 0 then 1 + rest / ps else rest / ps := by
    rw [u64Sub_of_le (by rw [hlast]; split <;> omega) hlastlt, hlast]
    split <;> omega
  have hguard : ¬u64Sub ((off + len - 1) / ps) q < 2 := by
    rw [hdiff]
    split
    · omega
    · have := hbound (by omega)
      omega
  have hlen2 : (if (off + len) % ps ≠ 0
      then u64 (u64Sub (u64Sub ((off + len - 1) / ps) q) 1 * ps)
      else u64 (u64Sub ((off + len - 1) / ps) q * ps)) = rest / ps * ps := by
    have hsmall : rest / ps < 2 ^ 64 - 1 :=
      lt_of_le_of_lt (Nat.div_le_self _ _) (by omega)
    rw [hendmod, hdiff]
    by_cases hz : rest % ps = 0
    · rw [if_neg (not_not.mpr hz), if_neg (not_not.mpr hz), u64_of_lt (by omega)]
    · rw [if_pos hz, if_pos hz, u64Sub_of_le (by omega) (by omega),
        Nat.add_sub_cancel_left, u64_of_lt (by omega)]
  have hoff2 : u64 (off + (ps - r)) = off + (ps - r) := u64_of_lt (by omega)
  have hoff3 : u64 (off + (ps - r) + rest / ps * ps) = off + (ps - r) + rest / ps * ps :=
    u64_of_lt (by omega)
  have hlen3 : u64Sub (u64Sub len (ps - r)) (rest / ps * ps) = rest % ps := by
    have hinner : u64Sub len (ps - r) = rest := by
      rw [hrest]
      exact u64Sub_of_le (by omega) (by omega)
    rw [hinner, u64Sub_of_le (by omega) (by omega)]
    omega
  have hal : (off + (ps - r)) % ps = 0 := by
    rw [show off + (ps - r) = (q + 1) * ps by omega]
    exact Nat.mul_mod_left _ _
  rw [foldl_rangePieces, ← hps', hh, hm, ht, motrObjIovecSplit3, ← hps']
  simp only [u64_of_lt hwrap, hone, ← hr, ← hq, hlen2, hoff2, hoff3, hlen3]
  rw [if_neg hguard, motrObjIovecClone_eq hmax hpos _ _ (by omega) (by rw [← hps']; exact hal)
    (by rw [← hps']; exact Nat.mul_mod_left _ _)]
  change (if _ then _ else _) = _
  by_cases hz : rest % ps = 0
  · rw [if_neg (not_not.mpr hz), hz, addPiece_part_zero]
    rfl
  · rw [if_pos hz]
    rfl

/-- **One range of the planner is its pieces**, whatever the range, as long as it
does not wrap. -/
theorem motrObjIovecAdjustOne_eq (args : MotrObjRwArgs) {v : MioIovec ℕ} (hwrap : v.NoWrap) :
    motrObjIovecAdjustOne conf obj args v =
      .ok ((rangePieces (motrObjIoPagesize obj) v).foldl (addPiece obj max) args) := by
  have hps := motrObjIoPagesize_pos obj
  obtain ⟨ps, hps'⟩ : ∃ ps, ps = motrObjIoPagesize obj := ⟨_, rfl⟩
  rw [motrObjIovecAdjustOne, ← hps']
  rw [← hps'] at hps
  by_cases hoff : v.miovOff % ps = 0
  · by_cases hlen : v.miovLen % ps = 0
    · -- aligned at both ends
      have hh : headLen ps v.miovOff v.miovLen = 0 := by rw [headLen, if_pos hoff]
      have hm : midLen ps v.miovOff v.miovLen = v.miovLen := by
        rw [midLen, hh, Nat.sub_zero, Nat.div_mul_cancel (Nat.dvd_of_mod_eq_zero hlen)]
      have ht : tailLen ps v.miovOff v.miovLen = 0 := by rw [tailLen, hh, Nat.sub_zero, hlen]
      rw [if_pos ⟨hoff, hlen⟩, motrObjIovecClone_eq hmax hpos args _ hwrap (by rwa [← hps'])
        (by rwa [← hps']), foldl_rangePieces, hh, hm, ht, addPiece_part_zero, addPiece_part_zero]
      rfl
    · rw [if_neg (fun h => hlen h.2), if_pos ⟨hoff, hlen⟩, motrObjIovecAdjustWithAlignedOff,
        ← hps']
      by_cases hbig : v.miovLen > ps
      · rw [if_pos hbig, motrObjIovecSplit2_aligned hmax hpos args hwrap (by rwa [← hps'])
          (by rwa [← hps']), ← hps']
      · -- less than one page
        have hlt : v.miovLen < ps := by
          rcases Nat.lt_or_ge v.miovLen ps with h | h
          · exact h
          · exact absurd (by rw [show v.miovLen = ps by omega, Nat.mod_self]) hlen
        have hh : headLen ps v.miovOff v.miovLen = 0 := by rw [headLen, if_pos hoff]
        have hm : midLen ps v.miovOff v.miovLen = 0 := by
          rw [midLen, hh, Nat.sub_zero, Nat.div_eq_of_lt hlt, Nat.zero_mul]
        have ht : tailLen ps v.miovOff v.miovLen = v.miovLen := by
          rw [tailLen, hh, Nat.sub_zero, Nat.mod_eq_of_lt hlt]
        rw [if_neg hbig, foldl_rangePieces, hh, hm, ht, addPiece_part_zero, addPiece_whole_zero]
        rfl
  · rw [if_neg (fun h => hoff h.1), if_neg (fun h => hoff h.1),
      motrObjIovecAdjustWithNonalignedOff, ← hps']
    have hw : v.miovOff + v.miovLen < 2 ^ 64 := hwrap
    have hlt := Nat.mod_lt v.miovOff hps
    have hdm := Nat.div_add_mod' v.miovOff ps
    have hone : u64Sub (v.miovOff + v.miovLen) 1 = v.miovOff + v.miovLen - 1 :=
      u64Sub_of_le (by omega) hw
    -- pages counted from the first one
    have hlast : (v.miovOff + v.miovLen - 1) / ps =
        v.miovOff / ps + (v.miovOff % ps + v.miovLen - 1) / ps := by
      rw [show v.miovOff + v.miovLen - 1 =
        (v.miovOff % ps + v.miovLen - 1) + v.miovOff / ps * ps by omega,
        Nat.add_mul_div_right _ _ hps, Nat.add_comm]
    have hfirst : v.miovOff / ps + 1 < 2 ^ 64 ∨ v.miovOff % ps + v.miovLen ≤ ps := by
      by_cases h : v.miovOff % ps + v.miovLen ≤ ps
      · exact Or.inr h
      · refine Or.inl ?_
        have : v.miovOff / ps ≤ v.miovOff / ps * ps := Nat.le_mul_of_pos_right _ hps
        omega
    simp only [u64_of_lt hw, hone, hlast]
    by_cases hsame : v.miovOff % ps + v.miovLen ≤ ps
    · -- one page
      have hz : (v.miovOff % ps + v.miovLen - 1) / ps = 0 := Nat.div_eq_of_lt (by omega)
      have hh : headLen ps v.miovOff v.miovLen = v.miovLen := by
        rw [headLen, if_neg hoff]
        omega
      have hm : midLen ps v.miovOff v.miovLen = 0 := by
        rw [midLen, hh, Nat.sub_self, Nat.zero_div, Nat.zero_mul]
      have ht : tailLen ps v.miovOff v.miovLen = 0 := by
        rw [tailLen, hh, Nat.sub_self, Nat.zero_mod]
      rw [hz, Nat.add_zero, if_pos rfl, foldl_rangePieces, hh, hm, ht, addPiece_part_zero,
        addPiece_whole_zero]
      rfl
    · have hge : 0 < (v.miovOff % ps + v.miovLen - 1) / ps := Nat.div_pos (by omega) hps
      rw [if_neg (by omega), u64_of_lt (hfirst.resolve_right hsame)]
      by_cases htwo : v.miovOff % ps + v.miovLen ≤ 2 * ps
      · have h1 : (v.miovOff % ps + v.miovLen - 1) / ps = 1 := by
          have : (v.miovOff % ps + v.miovLen - 1) / ps < 2 :=
            Nat.div_lt_of_lt_mul (by omega)
          omega
        rw [h1, if_pos rfl, motrObjIovecSplit2_nonaligned hmax hpos args hwrap
          (by rwa [← hps']) (by rw [← hps']; omega) (by rwa [← hps']), ← hps']
      · have h2 : 2 ≤ (v.miovOff % ps + v.miovLen - 1) / ps :=
          (Nat.le_div_iff_mul_le hps).mpr (by omega)
        rw [if_neg (by omega), motrObjIovecSplit3_eq hmax hpos args hwrap (by rwa [← hps'])
          (by rw [← hps']; omega), ← hps']

/-- **The planner is a fold over pieces.** -/
theorem motrObjIovecAdjust_eq (args : MotrObjRwArgs)
    (hwrap : ∀ v ∈ args.rwaSortedIovs, v.NoWrap) :
    motrObjIovecAdjust conf obj args =
      .ok ((allPieces (motrObjIoPagesize obj) args.rwaSortedIovs).foldl
        (addPiece obj max) args) := by
  rw [motrObjIovecAdjust, allPieces]
  generalize args.rwaSortedIovs = vs at hwrap
  induction vs generalizing args with
  | nil => rfl
  | cons v vs ih =>
    rw [List.foldlM_cons, motrObjIovecAdjustOne_eq hmax hpos args (hwrap v List.mem_cons_self),
      List.flatMap_cons, List.foldl_append]
    exact ih _ fun w hw => hwrap w (List.mem_cons_of_mem _ hw)

end Cases

/-! ### The geometry of pieces -/

/-- The end of a piece. -/
def Piece.stop (p : Piece) : ℕ := p.off + p.len

/-- A byte of the object that the piece contains. -/
def Piece.Has (p : Piece) (x : ℕ) : Prop := p.off ≤ x ∧ x < p.stop

/-- Where a piece lies with respect to the pages: on page boundaries, or within
one page. -/
structure Piece.Ok (ps : ℕ) (p : Piece) : Prop where
  /-- It is not empty. -/
  pos : 0 < p.len
  /-- Whole pages. -/
  whole : p.whole = true → p.off % ps = 0 ∧ p.stop % ps = 0
  /-- A part of a page. -/
  part : p.whole = false → p.stop ≤ p.off / ps * ps + ps

/-- Where a piece lies with respect to its range. -/
structure Piece.Of (ps : ℕ) (v : MioIovec ℕ) (p : Piece) : Prop where
  /-- It starts in the range. -/
  off : v.miovOff ≤ p.off
  /-- It ends in the range. -/
  stop : p.stop ≤ v.stop
  /-- Its memory is that of the range. -/
  base : p.base = v.miovBase + (p.off - v.miovOff)
  /-- A part of a page is there because the range does not contain the page. -/
  part : p.whole = false →
    p.off / ps * ps < v.miovOff ∨ v.stop < p.off / ps * ps + ps

/-- Whole pages with a byte of a page contain the page. -/
theorem Piece.Ok.contains_page {ps : ℕ} {p : Piece} (h : p.Ok ps) (hw : p.whole = true) {q x : ℕ}
    (hx : p.Has x) (h1 : q * ps ≤ x) (h2 : x < q * ps + ps) :
    p.off ≤ q * ps ∧ q * ps + ps ≤ p.stop := by
  obtain ⟨hz1, hz2⟩ := h.whole hw
  obtain ⟨a, ha⟩ := Nat.dvd_of_mod_eq_zero hz1
  obtain ⟨b, hb⟩ := Nat.dvd_of_mod_eq_zero hz2
  obtain ⟨hx1, hx2⟩ := hx
  have hle : a ≤ q := by
    refine Nat.le_of_lt_succ (Nat.lt_of_mul_lt_mul_left (a := ps) ?_)
    rw [Nat.mul_succ, Nat.mul_comm _ q]
    omega
  have hge : q + 1 ≤ b := by
    refine Nat.lt_of_mul_lt_mul_left (a := ps) ?_
    rw [Nat.mul_comm _ q]
    omega
  have h3 := Nat.mul_le_mul_left ps hle
  have h4 := Nat.mul_le_mul_left ps hge
  rw [Nat.mul_succ] at h4
  rw [Nat.mul_comm _ q] at h3 h4
  omega

/-- A part with a byte of a page is a part of that page. -/
theorem Piece.Ok.page_eq {ps : ℕ} {p : Piece} (h : p.Ok ps) (hw : p.whole = false) {q x : ℕ}
    (hx : p.Has x) (h1 : q * ps ≤ x) (h2 : x < q * ps + ps) : p.off / ps = q := by
  have hpart := h.part hw
  have hle := Nat.div_mul_le_self p.off ps
  obtain ⟨hx1, hx2⟩ := hx
  refine Nat.le_antisymm ?_ ?_
  · refine Nat.le_of_lt_succ (Nat.lt_of_mul_lt_mul_right (a := ps) ?_)
    rw [Nat.succ_mul]
    omega
  · refine Nat.le_of_lt_succ (Nat.lt_of_mul_lt_mul_right (a := ps) ?_)
    rw [Nat.succ_mul]
    omega

theorem mem_pieceIf {off len base : ℕ} {whole : Bool} {p : Piece} :
    p ∈ pieceIf off len base whole ↔ 0 < len ∧ p = ⟨off, len, base, whole⟩ := by
  rw [pieceIf]
  split <;> simp <;> omega

/-- The first page boundary at or after the start of a range that reaches it. -/
theorem headLen_boundary {ps off len : ℕ} (hps : 0 < ps) (h : headLen ps off len < len) :
    (off + headLen ps off len) % ps = 0 := by
  rw [headLen] at h ⊢
  split at h
  · next hoff => simp [hoff]
  · next hoff =>
    have hlt := Nat.mod_lt off hps
    have hdm := Nat.div_add_mod' off ps
    have hh : min len (ps - off % ps) = ps - off % ps := by omega
    rw [if_neg hoff, hh, show off + (ps - off % ps) = (off / ps + 1) * ps by
      rw [Nat.add_mul, Nat.one_mul]; omega]
    exact Nat.mul_mod_left _ _

/-- **What the pieces of a range are.** -/
theorem of_mem_rangePieces {ps : ℕ} (hps : 0 < ps) {v : MioIovec ℕ} {p : Piece}
    (h : p ∈ rangePieces ps v) : p.Ok ps ∧ p.Of ps v := by
  obtain ⟨base, off, len⟩ := v
  simp only [rangePieces, List.mem_append, mem_pieceIf] at h
  have hsum := head_mid_tail ps off len
  have hmid : midLen ps off len % ps = 0 := Nat.mul_mod_left _ _
  have htail : tailLen ps off len < ps := Nat.mod_lt _ hps
  obtain ⟨hd, hhd⟩ : ∃ hd, hd = headLen ps off len := ⟨_, rfl⟩
  obtain ⟨md, hmd⟩ : ∃ md, md = midLen ps off len := ⟨_, rfl⟩
  obtain ⟨tl, htl⟩ : ∃ tl, tl = tailLen ps off len := ⟨_, rfl⟩
  have hbound : hd < len → (off + hd) % ps = 0 := fun hlt => by
    rw [hhd] at hlt ⊢
    exact headLen_boundary hps hlt
  have hhead : 0 < hd → off / ps * ps < off ∧ off + hd ≤ off / ps * ps + ps := by
    intro hpos
    have hdm := Nat.div_add_mod' off ps
    have hlt := Nat.mod_lt off hps
    rw [hhd, headLen] at hpos ⊢
    split at hpos
    · omega
    · next hne =>
      rw [if_neg hne]
      omega
  rw [← hhd, ← hmd, ← htl] at h hsum
  rw [← hmd] at hmid
  rw [← htl] at htail
  rcases h with (⟨hpos, rfl⟩ | ⟨hpos, rfl⟩) | ⟨hpos, rfl⟩
  · obtain ⟨h1, h2⟩ := hhead hpos
    exact ⟨⟨hpos, by simp, fun _ => h2⟩, ⟨le_rfl, by simp [Piece.stop, MioIovec.stop]; omega,
      by simp, fun _ => Or.inl h1⟩⟩
  · have hz := hbound (by omega)
    have hz' : (off + hd + md) % ps = 0 := by rw [Nat.add_mod, hz, hmid, Nat.zero_add, Nat.zero_mod]
    exact ⟨⟨hpos, fun _ => ⟨hz, hz'⟩, by simp⟩,
      ⟨by simp, by simp [Piece.stop, MioIovec.stop]; omega, by simp, by simp⟩⟩
  · have hz := hbound (by omega)
    have hz' : (off + hd + md) % ps = 0 := by rw [Nat.add_mod, hz, hmid, Nat.zero_add, Nat.zero_mod]
    have hq : (off + hd + md) / ps * ps = off + hd + md :=
      Nat.div_mul_cancel (Nat.dvd_of_mod_eq_zero hz')
    refine ⟨⟨hpos, by simp, fun _ => ?_⟩, ⟨by simp; omega, ?_, by simp; omega, fun _ => Or.inr ?_⟩⟩
    · simp only [Piece.stop, hq]
      omega
    · simp only [Piece.stop, MioIovec.stop]
      omega
    · simp only [MioIovec.stop, hq]
      omega

/-- **The pieces of a range cover it.** -/
theorem exists_mem_rangePieces (ps : ℕ) {v : MioIovec ℕ} {x : ℕ} (h : v.Has x) :
    ∃ p ∈ rangePieces ps v, p.Has x := by
  obtain ⟨base, off, len⟩ := v
  simp only [MioIovec.Has, MioIovec.stop] at h
  have hsum := head_mid_tail ps off len
  simp only [rangePieces, List.mem_append, mem_pieceIf]
  rcases Nat.lt_or_ge x (off + headLen ps off len) with h1 | h1
  · exact ⟨_, Or.inl (Or.inl ⟨by omega, rfl⟩), h.1, h1⟩
  rcases Nat.lt_or_ge x (off + headLen ps off len + midLen ps off len) with h2 | h2
  · exact ⟨_, Or.inl (Or.inr ⟨by omega, rfl⟩), h1, h2⟩
  · exact ⟨_, Or.inr ⟨by omega, rfl⟩, h2, by simp only [Piece.stop]; omega⟩

/-- The pieces of a range follow one another. -/
theorem rangePieces_pairwise (ps : ℕ) (v : MioIovec ℕ) :
    (rangePieces ps v).Pairwise fun p q => p.stop ≤ q.off := by
  have hsingle : ∀ off len base whole, (pieceIf off len base whole).Pairwise
      fun p q => p.stop ≤ q.off := by
    intro off len base whole
    rw [pieceIf]
    split <;> simp
  simp only [rangePieces, List.pairwise_append, List.mem_append, mem_pieceIf]
  refine ⟨⟨hsingle _ _ _ _, hsingle _ _ _ _, ?_⟩, hsingle _ _ _ _, ?_⟩
  · rintro p ⟨-, rfl⟩ q ⟨-, rfl⟩
    exact le_rfl
  · rintro p (⟨-, rfl⟩ | ⟨-, rfl⟩) q ⟨-, rfl⟩
    · exact Nat.le_add_right _ _
    · exact le_rfl

theorem mem_allPieces {ps : ℕ} {vs : List (MioIovec ℕ)} {p : Piece} :
    p ∈ allPieces ps vs ↔ ∃ v ∈ vs, p ∈ rangePieces ps v := List.mem_flatMap

theorem ok_of_mem_allPieces {ps : ℕ} (hps : 0 < ps) {vs : List (MioIovec ℕ)} {p : Piece}
    (h : p ∈ allPieces ps vs) : p.Ok ps := by
  obtain ⟨v, -, hp⟩ := mem_allPieces.mp h
  exact (of_mem_rangePieces hps hp).1

/-- **Ranges in order have their pieces in order.** -/
theorem allPieces_pairwise {ps : ℕ} (hps : 0 < ps) {vs : List (MioIovec ℕ)} (h : InOrder vs) :
    (allPieces ps vs).Pairwise fun p q => p.stop ≤ q.off := by
  rw [allPieces, List.pairwise_flatMap]
  refine ⟨fun v _ => rangePieces_pairwise ps v, h.imp fun {v w} hvw p hp q hq => ?_⟩
  exact (of_mem_rangePieces hps hp).2.stop.trans (hvw.trans (of_mem_rangePieces hps hq).2.off)

/-- Pieces in order do not overlap. -/
theorem Piece.apart_of_pairwise {P : List Piece} (h : P.Pairwise fun p q => p.stop ≤ q.off)
    {p q : Piece} (hp : p ∈ P) (hq : q ∈ P) (hne : p ≠ q) : p.stop ≤ q.off ∨ q.stop ≤ p.off := by
  have hsymm : P.Pairwise fun p q => p.stop ≤ q.off ∨ q.stop ≤ p.off := h.imp Or.inl
  have : Std.Symm (fun p q : Piece => p.stop ≤ q.off ∨ q.stop ≤ p.off) := ⟨fun _ _ => Or.symm⟩
  exact hsymm.forall hp hq hne

end CortxMio
