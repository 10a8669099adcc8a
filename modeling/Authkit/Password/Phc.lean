import Authkit.Base64

namespace Authkit.Password

open Fmt Base64

structure Params where
  time : UInt32
  memory : UInt32
  threads : UInt8
  saltLen : UInt32
  keyLen : UInt32
  deriving DecidableEq, Repr

def defaultParams : Params := ⟨1, 64 * 1024, 1, 16, 32⟩

/-- `phcEncode`: `$argon2id$v=19$m=%d,t=%d,p=%d$%s$%s`, salt and digest in `RawStdEncoding`. -/
def phcEncode (p : Params) (salt sum : List UInt8) : Str :=
  "$argon2id$v=19$m=".toList ++ formatDecimal p.memory.toNat ++ ",t=".toList ++
    formatDecimal p.time.toNat ++ ",p=".toList ++ formatDecimal p.threads.toNat ++ "$".toList ++
    rawStdEncoding.encodeToString salt ++ "$".toList ++ rawStdEncoding.encodeToString sum

def phcDecode (s : Str) : Except Str (Params × List UInt8 × List UInt8) := do
  let parts := s.splitOn '$'
  if parts.length ≠ 6 ∨ parts[1]? ≠ some "argon2id".toList then
    throw "bad_phc".toList
  let (m, t, par) ← sscanfParams (parts.getD 3 [])
  let salt ← rawStdEncoding.decodeString (parts.getD 4 [])
  let sum ← rawStdEncoding.decodeString (parts.getD 5 [])
  return (⟨t.toUInt32, m.toUInt32, par.toUInt8, salt.length.toUInt32, sum.length.toUInt32⟩,
    salt, sum)

/-- `argon2.IDKey`, taken as a given function that returns `keyLen` bytes. -/
structure IDKey where
  key : List UInt8 → List UInt8 → UInt32 → UInt32 → UInt8 → UInt32 → List UInt8
  length_key : ∀ pw salt t m th kl, (key pw salt t m th kl).length = kl.toNat

def constantTimeCompare (x y : List UInt8) : Nat := if x = y then 1 else 0

/-- `HashArgon2id(password)`, where `salt` is what `rand.Read` filled in. -/
def hashArgon2id (idKey : IDKey) (salt : List UInt8) (password : Str) : Str :=
  let p := defaultParams
  let dk := idKey.key (bytesOf password) salt p.time p.memory p.threads p.keyLen
  phcEncode p salt dk

def verifyArgon2id (idKey : IDKey) (encoded password : Str) : Except Str Bool := do
  let (p, salt, sum) ← phcDecode encoded
  let dk := idKey.key (bytesOf password) salt p.time p.memory p.threads sum.length.toUInt32
  if dk.length ≠ sum.length then
    return false
  if constantTimeCompare dk sum = 1 then
    return true
  return false

example : phcEncode defaultParams [1, 2, 3] [4] =
    "$argon2id$v=19$m=65536,t=1,p=1$AQID$BA".toList := by decide

theorem phcEncode_eq (p : Params) (salt sum : List UInt8) :
    phcEncode p salt sum = ['$'].intercalate [[], "argon2id".toList, "v=19".toList,
      "m=".toList ++ formatDecimal p.memory.toNat ++ ",t=".toList ++ formatDecimal p.time.toNat ++
        ",p=".toList ++ formatDecimal p.threads.toNat, rawStdEncoding.encodeToString salt,
      rawStdEncoding.encodeToString sum] := by
  simp [phcEncode, List.intercalate, List.intersperse]

theorem dollar_not_mem_formatDecimal (n : Nat) : '$' ∉ formatDecimal n := fun h =>
  absurd (formatDecimal_isDigit n '$' h) (by decide)

/-- Splitting the encoding on `$` gives back its six fields. -/
theorem splitOn_phcEncode (p : Params) (salt sum : List UInt8) :
    (phcEncode p salt sum).splitOn '$' = [[], "argon2id".toList, "v=19".toList,
      "m=".toList ++ formatDecimal p.memory.toNat ++ ",t=".toList ++ formatDecimal p.time.toNat ++
        ",p=".toList ++ formatDecimal p.threads.toNat, rawStdEncoding.encodeToString salt,
      rawStdEncoding.encodeToString sum] := by
  rw [phcEncode_eq, List.splitOn_intercalate _ _ _ (List.cons_ne_nil _ _)]
  intro l hl
  simp only [List.mem_cons, List.mem_singleton, List.not_mem_nil, or_false] at hl
  rcases hl with rfl | rfl | rfl | rfl | rfl | rfl
  · exact List.not_mem_nil _
  · decide
  · decide
  · simp [dollar_not_mem_formatDecimal]
  · exact dollar_not_mem_encodeToString salt
  · exact dollar_not_mem_encodeToString sum

theorem toUInt32_toNat (x : UInt32) : x.toNat.toUInt32 = x :=
  UInt32.toNat.inj (Nat.mod_eq_of_lt x.toNat_lt)

theorem phcDecode_phcEncode (p : Params) (salt sum : List UInt8) :
    phcDecode (phcEncode p salt sum) = .ok (⟨p.time, p.memory, p.threads, salt.length.toUInt32,
      sum.length.toUInt32⟩, salt, sum) := by
  have hm := p.memory.toNat_lt
  have ht := p.time.toNat_lt
  have hp : p.threads.toNat < 2 ^ 32 := by have := p.threads.toNat_lt; omega
  unfold phcDecode
  rw [splitOn_phcEncode]
  simp only [List.length_cons, List.length_nil, List.getElem?_cons_succ, List.getElem?_cons_zero,
    ne_eq, not_true_eq_false, or_false, if_false, List.getD_cons_succ, List.getD_cons_zero,
    sscanfParams_format hm ht hp, decodeString_encodeToString, bind, Except.bind, pure,
    Except.pure, toUInt32_toNat, toUInt8_of_eq rfl]

theorem verifyArgon2id_hashArgon2id (idKey : IDKey) (salt : List UInt8) (password : Str) :
    verifyArgon2id idKey (hashArgon2id idKey salt password) password = .ok true := by
  have hlen := idKey.length_key (bytesOf password) salt 1 (64 * 1024) 1 32
  simp only [verifyArgon2id, hashArgon2id, defaultParams, phcDecode_phcEncode, bind, Except.bind,
    hlen, toUInt32_toNat, pure, Except.pure, ne_eq, not_true_eq_false, if_false,
    constantTimeCompare, if_true]

theorem phcDecode_phcEncode_verify (p : Params) (salt sum : List UInt8) (idKey : IDKey)
    (password : Str) :
    phcDecode (phcEncode p salt sum) = .ok (⟨p.time, p.memory, p.threads, salt.length.toUInt32,
      sum.length.toUInt32⟩, salt, sum) ∧
    verifyArgon2id idKey (hashArgon2id idKey salt password) password = .ok true :=
  ⟨phcDecode_phcEncode p salt sum, verifyArgon2id_hashArgon2id idKey salt password⟩

/-- A key derivation that returns `keyLen` zero bytes. -/
def zeroIDKey : IDKey := ⟨fun _ _ _ _ _ kl => List.replicate kl.toNat 0, fun _ _ _ _ _ _ => List.length_replicate _ _⟩

theorem phcDecode_phcEncode_verify_zero :
    phcDecode (phcEncode defaultParams [1, 2, 3] [4]) = .ok (⟨defaultParams.time,
      defaultParams.memory, defaultParams.threads, [1, 2, 3].length.toUInt32, [4].length.toUInt32⟩,
        [1, 2, 3], [4]) ∧
    verifyArgon2id zeroIDKey (hashArgon2id zeroIDKey [1, 2, 3] "password".toList) "password".toList =
      .ok true :=
  phcDecode_phcEncode_verify defaultParams [1, 2, 3] [4] zeroIDKey "password".toList

/-- `Validate(password)`: the policy counts `len(password)`, the bytes of its UTF-8 encoding. -/
def validate (password : Str) : Except Str Unit :=
  if (bytesOf password).length < 8 then .error "password_too_short".toList else .ok ()

def isBcryptHash (hash : Str) : Bool :=
  hasPrefix hash "$2a$".toList || hasPrefix hash "$2b$".toList || hasPrefix hash "$2y$".toList

/-- What `bcrypt.CompareHashAndPassword` returns: nil, a mismatch, or another error. -/
inductive BcryptResult
  | ok
  | mismatch
  | error (e : Str)

/-- `VerifyBcrypt(hash, password)`; `compare` is `bcrypt.CompareHashAndPassword` on the bytes. -/
def verifyBcrypt (compare : List UInt8 → List UInt8 → BcryptResult) (hash password : Str) :
    Except Str Bool :=
  match compare (bytesOf hash) (bytesOf password) with
  | .ok => .ok true
  | .mismatch => .ok false
  | .error e => .error e

end Authkit.Password
