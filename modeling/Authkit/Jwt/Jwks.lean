import Authkit.Base64

namespace Authkit.Jwt

/-- `big.Int.Bytes()`: the absolute value, big-endian, with no leading zero; zero has none. -/
def bigBytes (i : Int) : List UInt8 := ((Nat.digits 256 i.natAbs).map Nat.toUInt8).reverse

/-- `big.Int.SetBytes`, how a verifier reads `n` and `e` back: the big-endian value. -/
def setBytes (b : List UInt8) : Nat := b.foldl (fun acc x => 256 * acc + x.toNat) 0

/-- `base64URLEncode(i)`: the loop strips leading zero bytes, then `RawURLEncoding`. -/
def base64URLEncode (i : Int) : Str :=
  Base64.rawURLEncoding.encodeToString ((bigBytes i).dropWhile (· == 0))

/-- `rsa.PublicKey`: the modulus `N`, a `*big.Int`, and the exponent `E`, an `int`. -/
structure PublicKey where
  n : Int
  e : Int
  deriving DecidableEq, Repr

structure JWK where
  kty : Str
  use : Str
  kid : Str
  alg : Str
  n : Str
  e : Str
  deriving DecidableEq, Repr

def rsaPublicToJWK (pub : PublicKey) (kid alg : Str) : JWK :=
  ⟨"RSA".toList, "sig".toList, kid, alg, base64URLEncode pub.n, base64URLEncode pub.e⟩

theorem setBytes_append_singleton (l : List UInt8) (x : UInt8) :
    setBytes (l ++ [x]) = 256 * setBytes l + x.toNat := by
  simp [setBytes, List.foldl_append]

theorem setBytes_reverse_digits (ds : List Nat) (hds : ∀ d ∈ ds, d < 256) :
    setBytes (ds.map Nat.toUInt8).reverse = Nat.ofDigits 256 ds := by
  induction ds with
  | nil => rfl
  | cons d ds ih =>
    rw [List.map_cons, List.reverse_cons, setBytes_append_singleton,
      ih fun d' hd' => hds d' (List.mem_cons_of_mem d hd'), Nat.ofDigits_cons,
      Nat.toUInt8, UInt8.toNat_ofNat_of_lt (hds d (List.mem_cons_self d ds))]
    omega

theorem setBytes_bigBytes (i : Int) : setBytes (bigBytes i) = i.natAbs := by
  rw [bigBytes, setBytes_reverse_digits _ fun d hd => Nat.digits_lt_base (by norm_num) hd,
    Nat.ofDigits_digits]

/-- `Bytes` has no leading zero, so the loop of `base64URLEncode` never runs. -/
theorem dropWhile_bigBytes (i : Int) : (bigBytes i).dropWhile (· == 0) = bigBytes i := by
  have hhead : ∀ x ∈ (bigBytes i).head?, x ≠ 0 := by
    intro x hx h0
    by_cases hi : i.natAbs = 0
    · simp [bigBytes, hi] at hx
    · have hne := (Nat.digits_ne_nil_iff_ne_zero (b := 256)).mpr hi
      rw [bigBytes, List.head?_reverse, List.getLast?_map, List.getLast?_eq_getLast _ hne] at hx
      obtain rfl := Option.some_inj.mp hx
      have hlt := Nat.digits_lt_base (b := 256) (by norm_num) (List.getLast_mem hne)
      exact Nat.getLast_digit_ne_zero 256 hi
        (by simpa [Nat.toUInt8, UInt8.toNat_ofNat_of_lt hlt] using congrArg UInt8.toNat h0)
  cases h : bigBytes i with
  | nil => rfl
  | cons x l => exact List.dropWhile_cons_of_neg (by simpa using hhead x (by simp [h]))

theorem rsaPublicToJWK_decodes (pub : PublicKey) (kid alg : Str) :
    (Base64.rawURLEncoding.decodeString (rsaPublicToJWK pub kid alg).n).map setBytes =
        .ok pub.n.natAbs ∧
      (Base64.rawURLEncoding.decodeString (rsaPublicToJWK pub kid alg).e).map setBytes =
        .ok pub.e.natAbs := by
  have decodes : ∀ i : Int,
      (Base64.rawURLEncoding.decodeString (base64URLEncode i)).map setBytes = .ok i.natAbs :=
    fun i => by
      rw [base64URLEncode, dropWhile_bigBytes, Base64.decodeString_encodeToString]
      exact congrArg Except.ok (setBytes_bigBytes i)
  exact ⟨decodes pub.n, decodes pub.e⟩

example : (rsaPublicToJWK ⟨3233, 65537⟩ "k1".toList "RS256".toList).e = "AQAB".toList := by
  simp [rsaPublicToJWK, base64URLEncode, bigBytes]
  decide

/-- What `ServeJWKS` writes: the status, the headers it sets and the body. -/
structure Response where
  status : Nat
  headers : List (Str × Str)
  body : List UInt8
  deriving DecidableEq, Repr

end Authkit.Jwt
