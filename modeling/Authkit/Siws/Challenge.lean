import Authkit.Siws.RoundTrip

namespace Authkit.Siws

/-- `time.Format(RFC3339)` and `time.Parse`: whole seconds, one line, parse of format truncates. -/
structure Rfc3339 where
  format : Int → Str
  parse : Str → Except Str Int
  parse_format : ∀ t, parse (format t) = .ok (t / 1000000000 * 1000000000)
  format_ne_nil : ∀ t, format t ≠ []
  newline_not_mem : ∀ t, '\n' ∉ format t

def minute : Int := 60 * 1000000000

/-- One block of `ValidateTimestamps`: a written time must parse, and must not be `bad`. -/
def checkTime (rfc : Rfc3339) (value : Option Str) (formatErr badErr : Str) (bad : Int → Bool) :
    Except Str Unit :=
  match value with
  | some v => do
    let t ← (rfc.parse v).mapError (formatErr ++ ·)
    if bad t then throw (badErr ++ v) else pure ()
  | none => pure ()

/-- `ValidateTimestamps(input)` at `now`; the issued-at block runs when `IssuedAt` is not empty. -/
def validateTimestamps (rfc : Rfc3339) (now : Int) (input : SignInInput) : Except Str Unit := do
  checkTime rfc (present input.expirationTime) "invalid expiration time format: ".toList
    "message expired at ".toList fun exp => now > exp
  checkTime rfc (present input.notBefore) "invalid not-before time format: ".toList
    "message not valid until ".toList fun nb => now < nb
  checkTime rfc (present (some input.issuedAt)) "invalid issued-at time format: ".toList
    "message issued in the future: ".toList fun issued => issued > now + 5 * minute

def validateDomain (input : SignInInput) (expectedDomain : Str) : Except Str Unit :=
  if input.domain ≠ expectedDomain then
    .error ("domain mismatch: got ".toList ++ input.domain ++ ", expected ".toList ++ expectedDomain)
  else .ok ()

inductive InputOption
  | statement (statement : Str)
  | uri (uri : Str)
  | chainID (chainID : Str)
  | expirationDuration (d : Int)
  | resources (resources : List Str)

/-- Each option; `WithExpirationDuration` reads the clock when `IssuedAt` does not parse. -/
def InputOption.apply (rfc : Rfc3339) (now : Int) : InputOption → SignInInput → SignInInput
  | .statement s, i => { i with statement := some s }
  | .uri u, i => { i with uri := some u }
  | .chainID c, i => { i with chainID := some c }
  | .expirationDuration d, i =>
    let issuedAt := match rfc.parse i.issuedAt with
      | .ok t => t
      | .error _ => now
    { i with expirationTime := some (rfc.format (issuedAt + d)) }
  | .resources rs, i => { i with resources := i.resources ++ rs }

def newSignInInput (rfc : Rfc3339) (rnd : Except Str (Fin 16 → UInt8)) (now : Int)
    (domain address : Str) (opts : List InputOption) : Except Str SignInInput := do
  let b ← rnd.mapError ("failed to generate nonce: ".toList ++ ·)
  let nonce := generateNonce b
  let issuedAt := rfc.format now
  let expirationTime := rfc.format (now + 15 * minute)
  let input : SignInInput :=
    { domain := domain, address := address, nonce := nonce, issuedAt := issuedAt,
      expirationTime := some expirationTime, version := some "1".toList,
      chainID := some "mainnet".toList }
  pure (opts.foldl (fun i opt => opt.apply rfc now i) input)

theorem checkTime_eq_ok (rfc : Rfc3339) (value : Option Str) (formatErr badErr : Str)
    (bad : Int → Bool) :
    checkTime rfc value formatErr badErr bad = .ok () ↔
      ∀ v ∈ value, ∃ t, rfc.parse v = .ok t ∧ bad t = false := by
  cases value with
  | none => simp [checkTime, pure, Except.pure]
  | some v =>
    simp only [checkTime, Option.mem_def, Option.some.injEq, forall_eq']
    cases rfc.parse v with
    | error e => simp [Except.mapError, bind, Except.bind]
    | ok t => cases bad t <;> simp [Except.mapError, bind, Except.bind, pure, Except.pure, throw,
        throwThe, MonadExceptOf.throw]

theorem validateTimestamps_eq_ok (rfc : Rfc3339) (now : Int) (input : SignInInput) :
    validateTimestamps rfc now input = .ok () ↔
      (∀ e ∈ present input.expirationTime, ∃ exp, rfc.parse e = .ok exp ∧ now ≤ exp) ∧
      (∀ nb ∈ present input.notBefore, ∃ t, rfc.parse nb = .ok t ∧ t ≤ now) ∧
      (∀ i ∈ present (some input.issuedAt), ∃ t, rfc.parse i = .ok t ∧ t ≤ now + 5 * minute) := by
  simp only [validateTimestamps, bind, except_bind_eq_ok, Unique.exists_iff, PUnit.default_eq_unit, checkTime_eq_ok,
    gt_iff_lt, decide_eq_false_iff_not, not_lt]

theorem validateDomain_eq_ok (input : SignInInput) (expectedDomain : Str) :
    validateDomain input expectedDomain = .ok () ↔ input.domain = expectedDomain := by
  unfold validateDomain
  split_ifs with h <;> simpa using h

theorem newline_not_mem_generateNonce (rnd : Fin 16 → UInt8) : '\n' ∉ generateNonce rnd :=
  fun h => absurd (mem_generateNonce h) (by decide)

theorem newSignInInput_lifecycle (rfc : Rfc3339) (rnd : Fin 16 → UInt8) (t : Int)
    {domain address : Str} (hd : domain ≠ []) (hdn : '\n' ∉ domain) (ha : address ≠ [])
    (han : '\n' ∉ address) (hat : Trimmed address) :
    ∃ input, newSignInInput rfc (.ok rnd) t domain address [] = .ok input ∧
      parseMessage (constructMessage input) = .ok input ∧
      ∀ v, validateTimestamps rfc v input = .ok () ↔
        t / 1000000000 * 1000000000 ≤ v + 5 * minute ∧
          v ≤ t / 1000000000 * 1000000000 + 15 * minute := by
  set input : SignInInput :=
    { domain := domain, address := address, nonce := generateNonce rnd, issuedAt := rfc.format t,
      expirationTime := some (rfc.format (t + 15 * minute)), version := some "1".toList,
      chainID := some "mainnet".toList } with hinput
  refine ⟨input, rfl, ?_, fun v => ?_⟩
  · have hw : Wellformed input := ⟨hd, ha, hat, by simp [hinput, present], by
      simp [hinput, SignInInput.lineFields, hdn, han, newline_not_mem_generateNonce,
        rfc.newline_not_mem]⟩
    rw [parseMessage_constructMessage_normalize _ hw (by simp [hinput, StatementUnlabelled, present])]
    simp [hinput, SignInInput.normalize, present, rfc.format_ne_nil]
  · rw [validateTimestamps_eq_ok]
    simp [hinput, present, rfc.format_ne_nil, rfc.parse_format, minute]
    omega

/-- A layout with the properties of RFC 3339, to evaluate examples with: the Unix second. -/
def secondsLayout : Rfc3339 where
  format t := Fmt.formatInt (t / 1000000000)
  parse s :=
    if s.head? = some '-' then .ok (-(Fmt.digitsValue s.tail : Int) * 1000000000)
    else .ok (Fmt.digitsValue s * 1000000000)
  parse_format t := by
    dsimp only [Fmt.formatInt]
    by_cases h : t / 1000000000 < 0
    · simp only [if_pos h, List.head?_cons, if_true, List.tail_cons, Fmt.digitsValue_formatDecimal]
      congr 1
      omega
    · have hd : (Fmt.formatDecimal (t / 1000000000).natAbs).head? ≠ some '-' := fun he =>
        absurd (Fmt.formatDecimal_isDigit _ _ (List.mem_of_mem_head? he)) (by decide)
      rw [if_neg h, if_neg hd, Fmt.digitsValue_formatDecimal]
      congr 1
      omega
  format_ne_nil t := by
    unfold Fmt.formatInt
    dsimp only
    split_ifs
    · exact List.cons_ne_nil _ _
    · exact Fmt.fmtDigits_ne_nil _ _ _
  newline_not_mem t h := absurd (Fmt.isSpace_formatInt _ _ h) (by decide)

/-- A challenge issued at second 1000 passes then and fails sixteen minutes later. -/
theorem newSignInInput_lifecycle_example :
    ∃ input, newSignInInput secondsLayout (.ok fun _ => 0) 1000000000000 "example.com".toList
        "7xKX".toList [] = .ok input ∧
      parseMessage (constructMessage input) = .ok input ∧
      ∀ v, validateTimestamps secondsLayout v input = .ok () ↔
        1000000000000 / 1000000000 * 1000000000 ≤ v + 5 * minute ∧
          v ≤ 1000000000000 / 1000000000 * 1000000000 + 15 * minute :=
  newSignInInput_lifecycle secondsLayout _ _ (by decide) (by decide) (by decide) (by decide)
    (by decide)

end Authkit.Siws
