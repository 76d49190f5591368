import CortxMio.Obj.Hints

/-!
# What a record decodes to

The decoder of `CortxMio.Obj.Attrs` against the record as such: a fixed part, the number
of hints in it, all keys and all values (`CortxMio.storedPairs`).

A record that the encoder has built, of any map of persistent hints, comes back from a
fresh handle with the size, the statistics and the hints that went in, and if the map is
one that `obj_hint_store` has built, these are the persistent hints of the handle
(`CortxMio.decodes_stored`).

Of other values the decoder makes what it can. It copies the fixed part before it has
looked at anything, it sets the number of hints in use before it looks at the length,
and a record without hints leaves those of the handle where they are. So whether a value
is decoded well depends on what the handle holds (`CortxMio.decodesWell_iff`).
-/

namespace CortxMio

open Lib

/-! ### Records of the encoder -/

/-- A record is decoded into a fresh handle: without an error, to the size and the
statistics of `src`, and to the hints that are given. -/
def Decodes (drv : M0Obj) (buf : List Byte) (src : MioObj) (hints : List (Int32 × UInt64)) : Prop :=
  ∃ obj, motrObjAttrsWire2mem (objInit drv) buf = .ok (0, obj) ∧
    obj.moAttrs.moaSize = src.moAttrs.moaSize ∧ obj.moAttrs.moaStats = src.moAttrs.moaStats ∧
    obj.moHints.mhmNrSet = hints.length ∧ obj.moHints.pairs = hints

/-- A map without hints in use has no pairs. -/
theorem pairs_eq_nil {map : MioHintMap} (h : map.mhmNrSet = 0) : map.pairs = [] := by
  rw [MioHintMap.pairs, h, List.take_zero]

/-- **A record of the encoder** is decoded to the persistent hints, in their order. -/
theorem decodes_mem2wire (drv : M0Obj) {src : MioObj} (h : src.moAttrs.moaPhints.Wf) :
    Decodes drv (motrObjAttrsMem2wire src) src src.moAttrs.moaPhints.pairs := by
  refine ⟨_, motrObjAttrsWire2mem_mem2wire (objInit drv) h, rfl, rfl, ?_, ?_⟩
  · rw [h.inPlace.length_pairs, MioObj.load]
    dsimp only
    split
    · next h0 => exact h0.symm
    · rfl
  · by_cases h0 : src.moAttrs.moaPhints.mhmNrSet = 0
    · rw [pairs_eq_nil h0, MioObj.load]
      simp only [if_pos h0]
      rfl
    · exact pairs_load h h0

/-- **The round trip**: for every handle, and for every world in which the hints have
been stored. -/
theorem decodes_stored (drv : M0Obj) {src : MioObj} (hphints : src.moAttrs.moaPhints.Wf)
    {w : World} (hhints : w.obj.moHints.Wf) :
    Decodes drv (motrObjAttrsMem2wire src) src src.moAttrs.moaPhints.pairs ∧
      ∃ buf, (objHintStore w).cluster.attrs = some buf ∧
        Decodes drv buf w.obj (w.obj.moHints.pairs.filter isPersistent) := by
  refine ⟨decodes_mem2wire drv hphints, _, rfl, ?_⟩
  have hwf : (w.obj.setPhints (phintsOf w.obj.moHints)).moAttrs.moaPhints.Wf := wf_phintsOf hhints
  have hdec := decodes_mem2wire drv hwf
  have hpairs : (w.obj.setPhints (phintsOf w.obj.moHints)).moAttrs.moaPhints.pairs =
    w.obj.moHints.pairs.filter isPersistent := pairs_phintsOf
  rwa [hpairs] at hdec

/-- Set the number of hints in use. -/
def MioHintMap.setNr (map : MioHintMap) (nr : ℕ) : MioHintMap := { map with mhmNrSet := nr }

/-- A handle with two hints, of which the first is persistent. -/
def twoHints : MioObj :=
  (objInit .twoBytePages).withHints ((((mioHintMapInit mioObjHintNum).put 0 0 7).put 1 1 9).setNr 2)

theorem wf_twoHints : twoHints.moHints.Wf := ⟨by decide, by decide, by decide, by decide⟩

/-- Two hints, both of them in the record of one handle, and one stored for another. -/
theorem decodes_stored_twoHints :
    Decodes .twoBytePages (motrObjAttrsMem2wire (twoHints.setPhints twoHints.moHints))
        (twoHints.setPhints twoHints.moHints) twoHints.moHints.pairs ∧
      ∃ buf, (objHintStore ⟨⟨fun _ => 0, none⟩, twoHints⟩).cluster.attrs = some buf ∧
        Decodes .twoBytePages buf twoHints [(0, 7)] := by
  have hphints : (twoHints.setPhints twoHints.moHints).moAttrs.moaPhints.Wf := wf_twoHints
  have hhints : (World.mk ⟨fun _ => 0, none⟩ twoHints).obj.moHints.Wf := wf_twoHints
  exact decodes_stored .twoBytePages hphints hhints

/-! ### Any value -/

/-- The attributes of the fixed part, as numbers. -/
def MioObjAttrs.words (a : MioObjAttrs) : List ℕ :=
  a.moaSize.toNat :: a.moaStats.words.map UInt64.toNat

/-- The number of hints that a value claims to have. -/
def storedNr (buf : List Byte) : ℤ :=
  (UInt32.ofNat (leNat ((buf.drop motrObjAttrNonhintSize).take 4))).toInt32.toInt

/-- The hints in a value. -/
def storedPairs (buf : List Byte) : List (Int32 × UInt64) :=
  let ptr := buf.drop (motrObjAttrNonhintSize + 4)
  let nr := (storedNr buf).toNat
  ((leNats 4 nr ptr).map fun n => (UInt32.ofNat n).toInt32).zip
    ((leNats 8 nr (ptr.drop (nr * 4))).map UInt64.ofNat)

/-- **What is expected of the decoder**: it stays within the value; on an error the
handle is what it was; and else its hints are those in the value. -/
structure DecodesWell (obj : MioObj) (buf : List Byte) : Prop where
  /-- All reads are within the value. -/
  bounds : motrObjAttrsWire2mem obj buf ≠ .error .oob
  /-- An error changes nothing. -/
  error : ∀ rc obj', motrObjAttrsWire2mem obj buf = .ok (rc, obj') → rc < 0 →
    obj'.moAttrs = obj.moAttrs ∧ obj'.moHints = obj.moHints
  /-- Success. -/
  success : ∀ obj', motrObjAttrsWire2mem obj buf = .ok (0, obj') →
    obj'.moHints.pairs = storedPairs buf

/-- The values, and the handles, for which this is so. -/
def DecodesWhen (obj : MioObj) (buf : List Byte) : Prop :=
  motrObjAttrNonhintSize + 4 ≤ buf.length ∧
    if storedNr buf < 0 ∨ storedNr buf > mioObjHintNum then leNats 8 7 buf = obj.moAttrs.words
    else if storedNr buf = 0 then obj.moHints.mhmNrSet = 0
    else (buf.length : ℤ) = motrObjAttrNonhintSize + 4 + storedNr buf * (4 + 8) ∨
      leNats 8 7 buf = obj.moAttrs.words ∧ obj.moHints.mhmNrSet = storedNr buf

variable {obj : MioObj} {buf : List Byte}

theorem map_fst_storedPairs : (storedPairs buf).map Prod.fst =
    (leNats 4 (storedNr buf).toNat (buf.drop (motrObjAttrNonhintSize + 4))).map
      fun n => (UInt32.ofNat n).toInt32 := by
  rw [storedPairs, List.map_fst_zip]
  simp only [List.length_map, length_leNats, le_refl]

theorem map_snd_storedPairs : (storedPairs buf).map Prod.snd =
    (leNats 8 (storedNr buf).toNat ((buf.drop (motrObjAttrNonhintSize + 4)).drop
      ((storedNr buf).toNat * 4))).map UInt64.ofNat := by
  rw [storedPairs, List.map_snd_zip]
  simp only [List.length_map, length_leNats, le_refl]

theorem length_storedPairs : (storedPairs buf).length = (storedNr buf).toNat := by
  rw [← List.length_map Prod.fst, map_fst_storedPairs, List.length_map, length_leNats]

theorem setNr_eq_iff {map : MioHintMap} {n : ℤ} (h : 0 ≤ n) :
    map.setNr n.toNat = map ↔ (map.mhmNrSet : ℤ) = n := by
  obtain ⟨nrEntries, nrSet, keys, values⟩ := map
  rw [MioHintMap.setNr, MioHintMap.mk.injEq]
  simp only [true_and, and_true]
  omega

/-- The map after all hints have been copied. -/
def MioHintMap.stored (map : MioHintMap) (buf : List Byte) : MioHintMap where
  mhmNrEntries := map.mhmNrEntries
  mhmNrSet := (storedPairs buf).length
  mhmKeys := overwrite ((storedPairs buf).map Prod.fst) map.mhmKeys
  mhmValues := overwrite ((storedPairs buf).map Prod.snd) map.mhmValues

/-- **The decoder, exit by exit.** -/
theorem motrObjAttrsWire2mem_eq (obj : MioObj) (buf : List Byte) :
    motrObjAttrsWire2mem obj buf =
      if buf.length < motrObjAttrNonhintSize + 4 then .error .oob
      else if storedNr buf < 0 ∨ storedNr buf > mioObjHintNum then
        .ok (- EIO, obj.loadNonhint buf)
      else if storedNr buf = 0 then .ok (0, obj.loadNonhint buf)
      else if buf.length ≠ motrObjAttrNonhintSize + 4 + (storedNr buf).toNat * (4 + 8) then
        .ok (- EIO, (obj.loadNonhint buf).withHints (obj.moHints.setNr (storedNr buf).toNat))
      else .ok (0, (obj.loadNonhint buf).withHints (obj.moHints.stored buf)) := by
  rw [MioHintMap.stored, map_fst_storedPairs, map_snd_storedPairs, length_storedPairs,
    ← List.drop_drop]
  rfl

/-- The fixed part, as it has been copied. -/
theorem words_loadNonhint (obj : MioObj) (buf : List Byte) :
    (obj.loadNonhint buf).moAttrs.words = leNats 8 7 buf := by
  have hlt : ∀ x ∈ leNats 8 7 buf, (UInt64.ofNat x).toNat = x := fun x hx =>
    UInt64.toNat_ofNat_of_lt' (leNats_lt x hx)
  simp only [leNats, List.mem_cons, List.not_mem_nil, or_false, forall_eq_or_imp, forall_eq] at hlt
  simp only [MioObj.loadNonhint, MioObjAttrs.words, MioObjStats.ofWords, MioObjStats.words, leNats,
    List.map_cons, List.map_nil, List.tail_cons, List.getD_cons_zero, List.getD_cons_succ, hlt]

theorem words_inj {a b : MioObjAttrs} (h : a.words = b.words) (hph : a.moaPhints = b.moaPhints) :
    a = b := by
  obtain ⟨size, ⟨rc, rb, rt, wc, wb, wt⟩, ph⟩ := a
  obtain ⟨size', ⟨rc', rb', rt', wc', wb', wt'⟩, ph'⟩ := b
  simp only [MioObjAttrs.words, MioObjStats.words, List.map_cons, List.map_nil, List.cons.injEq,
    UInt64.toNat_inj, and_true] at h
  obtain ⟨rfl, rfl, rfl, rfl, rfl, rfl, rfl⟩ := h
  obtain rfl : ph = ph' := hph
  rfl

/-- **When copying the fixed part changes nothing.** -/
theorem moAttrs_loadNonhint_eq_iff :
    (obj.loadNonhint buf).moAttrs = obj.moAttrs ↔ leNats 8 7 buf = obj.moAttrs.words := by
  rw [← words_loadNonhint obj buf]
  exact ⟨congrArg _, fun h => words_inj h rfl⟩

/-! ### Exits -/

/-- An exit with an error. -/
theorem decodesWell_of_error {rc : ℤ} {obj' : MioObj} (hrc : rc < 0)
    (h : motrObjAttrsWire2mem obj buf = .ok (rc, obj')) :
    DecodesWell obj buf ↔ obj'.moAttrs = obj.moAttrs ∧ obj'.moHints = obj.moHints := by
  constructor
  · intro hwell
    exact hwell.error rc obj' h hrc
  · intro hsame
    refine ⟨?_, fun rc' obj'' h' _ => ?_, fun obj'' h' => ?_⟩
    · rw [h]
      simp
    · obtain ⟨-, rfl⟩ := Prod.mk.inj (Except.ok.inj (h.symm.trans h'))
      exact hsame
    · obtain ⟨rfl, -⟩ := Prod.mk.inj (Except.ok.inj (h.symm.trans h'))
      exact absurd hrc (lt_irrefl 0)

/-- An exit with success. -/
theorem decodesWell_of_success {obj' : MioObj} (h : motrObjAttrsWire2mem obj buf = .ok (0, obj')) :
    DecodesWell obj buf ↔ obj'.moHints.pairs = storedPairs buf := by
  constructor
  · intro hwell
    exact hwell.success obj' h
  · intro hpairs
    refine ⟨?_, fun rc obj'' h' hrc => ?_, fun obj'' h' => ?_⟩
    · rw [h]
      simp
    · obtain ⟨rfl, -⟩ := Prod.mk.inj (Except.ok.inj (h.symm.trans h'))
      exact absurd hrc (lt_irrefl 0)
    · obtain ⟨-, rfl⟩ := Prod.mk.inj (Except.ok.inj (h.symm.trans h'))
      exact hpairs

theorem pairs_stored (map : MioHintMap) (buf : List Byte) :
    (map.stored buf).pairs = storedPairs buf :=
  pairs_overwrite ..

/-- **When a value is decoded well**: for every value, and every handle with its maps in
place. The value has to reach beyond the number of hints. If this number is out of
range, the handle has to hold the fixed part already; if it is zero, the handle must not
have hints; and else the length has to be right, or the handle holds the fixed part
and has as many hints. -/
theorem decodesWell_iff (h : obj.HintsOk) (buf : List Byte) :
    DecodesWell obj buf ↔ DecodesWhen obj buf := by
  have heq := motrObjAttrsWire2mem_eq obj buf
  rw [DecodesWhen]
  rcases Nat.lt_or_ge buf.length (motrObjAttrNonhintSize + 4) with hshort | hlong
  · rw [if_pos hshort] at heq
    exact iff_of_false (fun hwell => hwell.bounds heq) fun hwhen => absurd hwhen.1 (by omega)
  · rw [if_neg (Nat.not_lt.mpr hlong)] at heq
    rw [and_iff_right hlong]
    by_cases hrange : storedNr buf < 0 ∨ storedNr buf > mioObjHintNum
    · -- the number of hints is out of range
      rw [if_pos hrange] at heq ⊢
      rw [decodesWell_of_error (by decide) heq, moAttrs_loadNonhint_eq_iff]
      exact and_iff_left rfl
    · rw [if_neg hrange] at heq ⊢
      by_cases hzero : storedNr buf = 0
      · rw [if_pos hzero] at heq ⊢
        have hnil : storedPairs buf = [] := by
          rw [← List.length_eq_zero_iff, length_storedPairs, hzero, Int.toNat_zero]
        rw [decodesWell_of_success heq, hnil, ← List.length_eq_zero_iff]
        exact (congrArg (· = 0) h.hints.inPlace.length_pairs).to_iff
      · rw [if_neg hzero] at heq ⊢
        by_cases hsize : buf.length = motrObjAttrNonhintSize + 4 + (storedNr buf).toNat * (4 + 8)
        · rw [if_neg (not_not.mpr hsize)] at heq
          exact iff_of_true ((decodesWell_of_success heq).mpr (pairs_stored ..)) (.inl (by omega))
        · -- the number of hints is set, the hints are not
          rw [if_pos hsize] at heq
          rw [decodesWell_of_error (by decide) heq, or_iff_right (by omega)]
          refine and_congr moAttrs_loadNonhint_eq_iff ?_
          rw [← setNr_eq_iff (by omega)]
          rfl

/-- A record with a hint, in the place of two others. -/
theorem decodesWell_twoHints :
    DecodesWell twoHints
      (motrObjAttrsMem2wire (twoHints.setPhints (phintsOf twoHints.moHints))) := by
  refine (decodesWell_iff ⟨wf_twoHints, by decide, ?_⟩ _).mpr ?_
  · exact MioHintMap.wf_zeroed
  · rw [DecodesWhen]
    decide +kernel

/-- **A record without hints** leaves the hints of the handle; and an empty value has
no end that the decoder looks for. -/
theorem not_decodesWell_twoHints :
    ¬DecodesWell twoHints (motrObjAttrsMem2wire (objInit .twoBytePages)) ∧
      ¬DecodesWell twoHints [] := by
  constructor
  · intro h
    have hpairs := h.success _ rfl
    revert hpairs
    decide +kernel
  · exact fun h => h.bounds rfl

end CortxMio
