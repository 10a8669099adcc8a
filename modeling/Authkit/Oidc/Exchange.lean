import Authkit.Oidc.Discovery

namespace Authkit.Oidc

inductive ClaimValue
  | str (s : Str)
  | bool (b : Bool)
  | other
  deriving DecidableEq, Repr

/-- A token that `jwt.ParseString` returned: `Subject()` and `Get(name)`. -/
structure Token where
  subject : Str
  get : Str → Option ClaimValue

structure IDTokenClaims where
  subject : Str
  email : Str
  emailVerified : Option Bool
  name : Str
  preferredUsername : Str
  deriving DecidableEq, Repr

/-- `r` and ASCII `c` are one under simple case folding: either case, the Kelvin sign, long s. -/
def foldsTo (r c : Char) : Bool :=
  r.toLower == c.toLower || (c.toLower == 'k' && r.toNat == 0x212A) ||
    (c.toLower == 's' && r.toNat == 0x17F)

/-- `strings.EqualFold(s, t)` for an ASCII `t`: rune by rune, as many runes on both sides. -/
def equalFold (s t : Str) : Bool :=
  s.length == t.length && (List.zipWith foldsTo s t).all id

theorem foldsTo_of_plain {r c : Char} (hk : c.toLower ≠ 'k') (hs : c.toLower ≠ 's') :
    foldsTo r c = (r.toLower == c.toLower) := by
  simp [foldsTo, beq_eq_false_iff_ne.mpr hk, beq_eq_false_iff_ne.mpr hs]

/-- Against `true`, which has neither `k` nor `s`, folding is lower-casing. -/
theorem equalFold_true_iff (s : Str) :
    equalFold s "true".toList = true ↔ s.map Char.toLower = "true".toList := by
  have ht : "true".toList = ['t', 'r', 'u', 'e'] := rfl
  rw [ht]
  rcases s with _ | ⟨a, _ | ⟨b, _ | ⟨c, _ | ⟨d, _ | ⟨e, s⟩⟩⟩⟩⟩ <;>
    simp [equalFold, foldsTo_of_plain (c := 't'), foldsTo_of_plain (c := 'r'),
      foldsTo_of_plain (c := 'u'), foldsTo_of_plain (c := 'e')]

def stringClaim (token : Token) (name : Str) : Str :=
  match token.get name with
  | some (.str s) => s
  | _ => []

/-- `email_verified` as `VerifyIDToken` reads it: a boolean, or `true` or `false` up to case. -/
def emailVerifiedClaim (token : Token) : Option Bool :=
  match token.get "email_verified".toList with
  | some (.bool b) => some b
  | some (.str s) =>
    if equalFold s "true".toList then some true
    else if equalFold s "false".toList then some false
    else none
  | _ => none

def extractClaims (token : Token) : IDTokenClaims :=
  ⟨token.subject, stringClaim token "email".toList, emailVerifiedClaim token,
    stringClaim token "name".toList, stringClaim token "preferred_username".toList⟩

structure Claims where
  subject : Str
  email : Option Str
  emailVerified : Option Bool
  name : Option Str
  preferredUsername : Option Str
  rawIDToken : Str
  deriving DecidableEq, Repr

def strptr (s : Str) : Option Str := if s = [] then none else some s

/-- The `Claims` `DefaultExchanger` builds: `""` is absent, unset `email_verified` is false. -/
def exchangerClaims (idt : IDTokenClaims) (rawIDToken : Str) : Claims :=
  ⟨idt.subject, strptr idt.email, some (idt.emailVerified.getD false), strptr idt.name,
    strptr idt.preferredUsername, rawIDToken⟩

theorem exchangerClaims_emailVerified (token : Token) (raw : Str) :
    ∃ b, (exchangerClaims (extractClaims token) raw).emailVerified = some b ∧
      (b = true ↔ token.get "email_verified".toList = some (.bool true) ∨
        ∃ s, token.get "email_verified".toList = some (.str s) ∧
          s.map Char.toLower = "true".toList) := by
  simp only [exchangerClaims, extractClaims, emailVerifiedClaim, Option.some.injEq,
    exists_eq_left', ← equalFold_true_iff]
  rcases token.get "email_verified".toList with _ | (s | b | _)
  · simp
  · dsimp only
    split_ifs <;> simp_all
  · cases b <;> simp
  · simp

example : (exchangerClaims (extractClaims ⟨[], fun _ => some (.str "TRUE".toList)⟩) []).emailVerified =
    some true := by decide

end Authkit.Oidc
