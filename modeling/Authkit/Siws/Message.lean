import Authkit.Base64

namespace Authkit.Siws

/-- `SignInInput`; a `*string` field is an `Option`, with `nil` as `none`. -/
structure SignInInput where
  domain : Str := []
  address : Str := []
  statement : Option Str := none
  uri : Option Str := none
  version : Option Str := none
  chainID : Option Str := none
  nonce : Str := []
  issuedAt : Str := []
  expirationTime : Option Str := none
  notBefore : Option Str := none
  requestID : Option Str := none
  resources : List Str := []
  deriving DecidableEq, Repr

/-- `input.F != nil && *input.F != ""`: the value of an optional field that is written. -/
def present : Option Str → Option Str
  | some v => if v = [] then none else some v
  | none => none

def headerSuffix : Str := " wants you to sign in with your Solana account:".toList

def optionalField (label : Str) (o : Option Str) : Str :=
  match present o with
  | some v => '\n' :: label ++ v
  | none => []

def constructMessage (input : SignInInput) : Str :=
  input.domain ++ headerSuffix ++ '\n' :: input.address ++
    (match present input.statement with
      | some s => '\n' :: '\n' :: s
      | none => []) ++
    ['\n'] ++
    optionalField "URI: ".toList input.uri ++
    optionalField "Version: ".toList input.version ++
    optionalField "Chain ID: ".toList input.chainID ++
    '\n' :: "Nonce: ".toList ++ input.nonce ++
    '\n' :: "Issued At: ".toList ++ input.issuedAt ++
    optionalField "Expiration Time: ".toList input.expirationTime ++
    optionalField "Not Before: ".toList input.notBefore ++
    optionalField "Request ID: ".toList input.requestID ++
    (if input.resources = [] then []
      else "\nResources:".toList ++ (input.resources.map fun r => "\n- ".toList ++ r).flatten)

/-- `^(.+) wants you to sign in with your Solana account:$` on the first line: the group. -/
def headerMatch (line : Str) : Option Str :=
  let domain := line.take (line.length - headerSuffix.length)
  if domain ≠ [] ∧ '\n' ∉ domain ∧ line = domain ++ headerSuffix then some domain else none

def startsFields (line : Str) : Bool :=
  hasPrefix line "URI:".toList || hasPrefix line "Version:".toList ||
    hasPrefix line "Chain ID:".toList || hasPrefix line "Nonce:".toList ||
    hasPrefix line "Issued At:".toList

/-- The scan for the field block from line `i` on; `none` is the source's `-1`. -/
def fieldsStartFrom (i : Nat) : List Str → Option Nat
  | [] => none
  | line :: rest => if startsFields (trimSpace line) then some i else fieldsStartFrom (i + 1) rest

/-- One turn of the statement loop: blank lines before the first kept line are skipped. -/
def collectStatement (statementLines : List Str) (line : Str) : List Str :=
  if statementLines = [] ∧ trimSpace line = [] then statementLines else statementLines ++ [line]

def extractStatement (block : List Str) : Option Str :=
  let statementLines := block.foldl collectStatement []
  if statementLines = [] then none
  else
    let statement := trimSpace (['\n'].intercalate statementLines)
    if statement = [] then none else some statement

structure FieldState where
  input : SignInInput
  inResources : Bool
  resources : List Str

def parseFieldLine (st : FieldState) (line : Str) : FieldState :=
  if hasPrefix line "- ".toList && st.inResources then
    { st with resources := st.resources ++ [trimPrefix line "- ".toList] }
  else if hasPrefix line "Resources:".toList then { st with inResources := true }
  else
    let input := st.input
    let input :=
      if hasPrefix line "URI: ".toList then
        { input with uri := some (trimPrefix line "URI: ".toList) }
      else if hasPrefix line "Version: ".toList then
        { input with version := some (trimPrefix line "Version: ".toList) }
      else if hasPrefix line "Chain ID: ".toList then
        { input with chainID := some (trimPrefix line "Chain ID: ".toList) }
      else if hasPrefix line "Nonce: ".toList then
        { input with nonce := trimPrefix line "Nonce: ".toList }
      else if hasPrefix line "Issued At: ".toList then
        { input with issuedAt := trimPrefix line "Issued At: ".toList }
      else if hasPrefix line "Expiration Time: ".toList then
        { input with expirationTime := some (trimPrefix line "Expiration Time: ".toList) }
      else if hasPrefix line "Not Before: ".toList then
        { input with notBefore := some (trimPrefix line "Not Before: ".toList) }
      else if hasPrefix line "Request ID: ".toList then
        { input with requestID := some (trimPrefix line "Request ID: ".toList) }
      else input
    { st with input := input, inResources := false }

def parseMessage (message : Str) : Except String SignInInput :=
  let lines := message.splitOn '\n'
  if lines.length < 2 then .error "message too short"
  else
    match headerMatch (lines.getD 0 []) with
    | none => .error "invalid header format"
    | some domain =>
      let address := trimSpace (lines.getD 1 [])
      if address = [] then .error "missing address"
      else
        match fieldsStartFrom 2 (lines.drop 2) with
        | none => .ok { domain := domain, address := address }
        | some fieldsStart =>
          let statement :=
            if 2 < fieldsStart then extractStatement ((lines.take fieldsStart).drop 2) else none
          let st := (lines.drop fieldsStart).foldl parseFieldLine
            ⟨{ domain := domain, address := address, statement := statement }, false, []⟩
          .ok (if st.resources = [] then st.input else { st.input with resources := st.resources })

/-- `GenerateNonce()`: the `RawURLEncoding` of the 16 bytes `rand.Read` fills, `=` trimmed. -/
def generateNonce (rnd : Fin 16 → UInt8) : Str :=
  trimRight (Base64.rawURLEncoding.encodeToString (List.ofFn rnd)) '='

theorem mem_encodeToString_url {src : List UInt8} {c : Char}
    (hc : c ∈ Base64.rawURLEncoding.encodeToString src) : c ∈ Base64.encodeURL :=
  let ⟨i, hi, he⟩ := Base64.mem_encodeToString _ hc
  he ▸ Base64.symOf_mem (hi.trans_eq (by decide : 64 = Base64.encodeURL.length))

theorem generateNonce_eq (rnd : Fin 16 → UInt8) :
    generateNonce rnd = Base64.rawURLEncoding.encodeToString (List.ofFn rnd) :=
  rdropWhile_of_last fun c hc => by
    have : c ≠ '=' := fun e =>
      absurd (e ▸ mem_encodeToString_url (List.mem_of_mem_getLast? hc)) (by decide)
    simpa using this

theorem mem_generateNonce {rnd : Fin 16 → UInt8} {c : Char} (hc : c ∈ generateNonce rnd) :
    c ∈ Base64.encodeURL :=
  mem_encodeToString_url (generateNonce_eq rnd ▸ hc)

theorem generateNonce_spec (rnd : Fin 16 → UInt8) :
    (generateNonce rnd).length = 22 ∧ (∀ c ∈ generateNonce rnd, c ∈ Base64.encodeURL) ∧
      ∀ rnd' : Fin 16 → UInt8, generateNonce rnd' = generateNonce rnd → rnd' = rnd := by
  refine ⟨by rw [generateNonce_eq, Base64.length_encodeToString, List.length_ofFn],
    fun c hc => mem_generateNonce hc, fun rnd' h => ?_⟩
  have decoded : (.ok (List.ofFn rnd') : Except Str (List UInt8)) = .ok (List.ofFn rnd) := by
    rw [← Base64.decodeString_encodeToString Base64.rawURLEncoding, ← generateNonce_eq, h,
      generateNonce_eq, Base64.decodeString_encodeToString]
  exact List.ofFn_injective (Except.ok.inj decoded)

end Authkit.Siws
