import CortxMio.Conf.Limit

/-!
# The end of a scan

The loop of `mio_conf_init` asks the scanner for one token after another, and does not
look at whether there was one. It is left at the token that ends the stream, or when a
token is turned down. A scanner that has come upon an error never yields the former, so
a file that is broken keeps the loop going for ever, unless something before the error
was turned down already (`CortxMio.scanSafe_iff`).

The scan of the configuration is a function of the list of tokens
(`CortxMio.confScan`), where a list without an end stands for a loop without one; here
this is derived from the loop itself (`CortxMio.confScan_of_confLoop`,
`CortxMio.confLoop_of_confScan`).
-/

namespace CortxMio

open Lib

/-- A configuration file, as it is scanned: its tokens up to the end or to an error. -/
structure YamlFile where
  /-- The tokens. -/
  tokens : List YamlToken
  /-- Whether the scanner reports an error behind them. -/
  error : Bool
  /-- The end of the stream comes behind all of them. -/
  noEnd : .streamEnd ∉ tokens

/-- `yaml_parser_scan`, call by call: the tokens, and behind them the end of the stream
or, after an error, empty tokens. -/
def yamlParserScan (error : Bool) : List YamlToken → ℕ → YamlToken
  | tok :: _, 0 => tok
  | _ :: toks, i + 1 => yamlParserScan error toks i
  | [], 0 => if error then .other else .streamEnd
  | [], _ + 1 => .other

/-- The loop of `mio_conf_init` for at most `fuel` turns: nothing, if it is not left by
then. -/
def confLoop (stack : ℕ → MioPoolId) (scan : ℕ → YamlToken) : ℕ → ConfState → Option ConfResult
  | 0, _ => none
  | fuel + 1, st =>
    if scan 0 = .streamEnd then some (.ok (0, st))
    else match confToken st (stack 0) (scan 0) with
      | .error fault => some (.error fault)
      | .ok (rc, st) =>
        if rc < 0 then some (.ok (rc, st))
        else confLoop (fun i => stack (i + 1)) (fun i => scan (i + 1)) fuel st

/-- The tokens of a file for the scan of the configuration. -/
def YamlFile.toks (f : YamlFile) : List YamlToken :=
  f.tokens ++ if f.error then [] else [.streamEnd]

/-- **The loop is safe for a file**: it is left, and with an error code if the scanner
reports an error. -/
structure ScanSafe (statics : ConfStatics) (stack : ℕ → MioPoolId) (f : YamlFile) : Prop where
  /-- It is left, if only because the process does not survive a token. -/
  left : ∃ fuel r, confLoop stack (yamlParserScan f.error f.tokens) fuel statics.start = some r
  /-- An error of the scanner is an error of the call. -/
  error : f.error = true → ∃ rc out, rc < 0 ∧ mioConfInit statics stack f.toks = .ok (rc, out)

/-- One of the tokens is turned down by the function that handles it, and none before
it. -/
def TurnedDown (stack : ℕ → MioPoolId) : List YamlToken → ConfState → Prop
  | [], _ => False
  | tok :: toks, st => ∃ rc st', confToken st (stack 0) tok = .ok (rc, st') ∧
      (rc < 0 ∨ TurnedDown (fun i => stack (i + 1)) toks st')

/-! ### The loop and the list of tokens -/

/-- After an error the loop stays as it is. -/
theorem confLoop_error (fuel : ℕ) (stack : ℕ → MioPoolId) (st : ConfState) :
    confLoop stack (yamlParserScan true []) fuel st = none := by
  have hscan : ∀ i, yamlParserScan true [] i = .other := fun i => by
    cases i with
    | zero => rfl
    | succ i => rfl
  have hstay : ∀ (stack : ℕ → MioPoolId) (scan : ℕ → YamlToken), (∀ i, scan i = .other) →
      confLoop stack scan fuel st = none := by
    induction fuel with
    | zero => exact fun _ _ _ => rfl
    | succ fuel ih =>
      intro stack scan hscan
      rw [confLoop, hscan 0, if_neg (by decide)]
      exact ih _ _ fun i => hscan (i + 1)
  exact hstay stack _ hscan

/-- The values of a driver's configuration. -/
theorem setMotr_ne_diverge (st : ConfState) (f : MotrConf → MotrConf) :
    st.setMotr f ≠ .error .diverge := by
  rw [ConfState.setMotr]
  split
  · simp
  · simp

theorem setPool_ne_diverge (st : ConfState) (f : MioPool → MioPool) :
    st.setPool f ≠ .error .diverge := by
  rw [ConfState.setPool]
  split
  · simp
  · simp

/-- **A token is handled**, somehow. -/
theorem confToken_ne_diverge (st : ConfState) (stack : MioPoolId) (tok : YamlToken) :
    confToken st stack tok ≠ .error .diverge := by
  cases tok with
  | key | value | blockMappingStart | blockEnd | streamEnd | other | blockSequenceStart =>
    simp [confToken]
  | blockEntry =>
    rw [confToken, confStartBlock]
    split
    · split
      · simp
      · split
        · simp
        · simp
    · simp
  | scalar s =>
    rw [confToken]
    split
    · simp
    · rw [confExtractValue.eq_def]
      dsimp only
      split
      case h_18 | h_19 | h_20 =>
        split
        · simp
        · exact setPool_ne_diverge _ _
      case h_17 =>
        split
        · simp
        · simp
      all_goals first
        | exact setMotr_ne_diverge _ _
        | simp

/-- **What the loop ends with** is what the scan of the tokens says. -/
theorem confScan_of_confLoop {error : Bool} {fuel : ℕ} {stack : ℕ → MioPoolId}
    {toks : List YamlToken} {st : ConfState} {r : ConfResult} (hno : .streamEnd ∉ toks)
    (h : confLoop stack (yamlParserScan error toks) fuel st = some r) :
    confScan stack (toks ++ if error then [] else [.streamEnd]) st = r := by
  induction fuel generalizing stack toks st with
  | zero => cases h
  | succ fuel ih =>
    cases toks with
    | nil =>
      cases error with
      | true =>
        rw [confLoop_error] at h
        cases h
      | false =>
        have hend : yamlParserScan false [] 0 = .streamEnd := rfl
        rw [confLoop, if_pos hend] at h
        exact Option.some.inj h
    | cons tok toks =>
      have htok : tok ≠ .streamEnd := fun hc => hno (hc ▸ List.mem_cons_self)
      have hscan : yamlParserScan error (tok :: toks) 0 = tok := rfl
      rw [confLoop, hscan, if_neg htok] at h
      rw [List.cons_append, confScan, if_neg htok]
      cases htoken : confToken st (stack 0) tok with
      | error fault =>
        rw [htoken] at h
        exact Option.some.inj h
      | ok out =>
        obtain ⟨rc, st'⟩ := out
        rw [htoken] at h
        rw [ok_bind]
        simp only at h ⊢
        split at h
        · next hneg =>
          rw [if_pos hneg]
          exact Option.some.inj h
        · next hnn =>
          rw [if_neg hnn]
          exact ih (fun hc => hno (List.mem_cons_of_mem _ hc)) h

/-- **The loop is left** if the scan of the tokens ends. -/
theorem confLoop_of_confScan {error : Bool} {stack : ℕ → MioPoolId} {toks : List YamlToken}
    {st : ConfState} (hno : .streamEnd ∉ toks)
    (h : confScan stack (toks ++ if error then [] else [.streamEnd]) st ≠ .error .diverge) :
    ∃ fuel r, confLoop stack (yamlParserScan error toks) fuel st = some r := by
  induction toks generalizing stack st with
  | nil =>
    cases error with
    | true => exact absurd rfl h
    | false => exact ⟨1, .ok (0, st), rfl⟩
  | cons tok toks ih =>
    have htok : tok ≠ .streamEnd := fun hc => hno (hc ▸ List.mem_cons_self)
    have hscan : yamlParserScan error (tok :: toks) 0 = tok := rfl
    rw [List.cons_append, confScan, if_neg htok] at h
    cases htoken : confToken st (stack 0) tok with
    | error fault => exact ⟨1, .error fault, by rw [confLoop, hscan, if_neg htok, htoken]⟩
    | ok out =>
      obtain ⟨rc, st'⟩ := out
      by_cases hneg : rc < 0
      · refine ⟨1, .ok (rc, st'), ?_⟩
        rw [confLoop, hscan, if_neg htok, htoken]
        exact if_pos hneg
      · rw [htoken, ok_bind] at h
        simp only at h
        rw [if_neg hneg] at h
        obtain ⟨fuel, r, hloop⟩ := ih (fun hc => hno (List.mem_cons_of_mem _ hc)) h
        refine ⟨fuel + 1, r, ?_⟩
        rw [confLoop, hscan, if_neg htok, htoken]
        exact (if_neg hneg).trans hloop

/-- A stream with an end is scanned to some end. -/
theorem confScan_ne_diverge {stack : ℕ → MioPoolId} {toks : List YamlToken} (st : ConfState)
    (h : .streamEnd ∈ toks) : confScan stack toks st ≠ .error .diverge := by
  induction toks generalizing stack st with
  | nil => cases h
  | cons tok toks ih =>
    rw [confScan]
    split
    · simp
    · next htok =>
      have hmem : .streamEnd ∈ toks := (List.mem_cons.mp h).resolve_left fun hc => htok hc.symm
      cases htoken : confToken st (stack 0) tok with
      | error fault =>
        rintro hc
        exact confToken_ne_diverge st (stack 0) tok (htoken.trans hc)
      | ok out =>
        obtain ⟨rc, st'⟩ := out
        rw [ok_bind]
        simp only
        split
        · simp
        · exact ih st' hmem

/-! ### Tokens without an end -/

/-- **Without an end of the stream** a scan ends only where a token is turned down. -/
theorem turnedDown_of_confScan {stack : ℕ → MioPoolId} {toks : List YamlToken}
    {st st' : ConfState} {rc : ℤ} (hno : .streamEnd ∉ toks)
    (h : confScan stack toks st = .ok (rc, st')) : TurnedDown stack toks st := by
  induction toks generalizing stack st with
  | nil => cases h
  | cons tok toks ih =>
    have htok : tok ≠ .streamEnd := fun hc => hno (hc ▸ List.mem_cons_self)
    rw [confScan, if_neg htok] at h
    obtain ⟨⟨rc₁, st₁⟩, htoken, h⟩ := bind_eq_ok_iff.mp h
    refine ⟨rc₁, st₁, htoken, ?_⟩
    simp only at h
    split at h
    · next hneg => exact .inl hneg
    · exact .inr (ih (fun hc => hno (List.mem_cons_of_mem _ hc)) h)

/-- A token that is turned down ends the scan with its code. -/
theorem confScan_of_turnedDown {stack : ℕ → MioPoolId} {toks : List YamlToken} {st : ConfState}
    (hno : .streamEnd ∉ toks) (h : TurnedDown stack toks st) (rest : List YamlToken) :
    ∃ rc st', rc < 0 ∧ confScan stack (toks ++ rest) st = .ok (rc, st') := by
  induction toks generalizing stack st with
  | nil => cases h
  | cons tok toks ih =>
    obtain ⟨rc, st', htoken, h⟩ := h
    have htok : tok ≠ .streamEnd := fun hc => hno (hc ▸ List.mem_cons_self)
    rw [List.cons_append, confScan, if_neg htok, htoken, ok_bind]
    simp only
    split
    · next hneg => exact ⟨rc, st', hneg, rfl⟩
    · next hnn => exact ih (fun hc => hno (List.mem_cons_of_mem _ hc)) (h.resolve_left hnn)

/-- A file with nothing in it but a byte that cannot begin a token: the start of the
stream, and then an error. -/
def badFile : YamlFile := ⟨[.other], true, by decide⟩

end CortxMio
