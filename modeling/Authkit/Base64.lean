import Authkit.Fmt

namespace Authkit.Base64

/-- `encodeStd`: the alphabet of `StdEncoding` and `RawStdEncoding`. -/
def encodeStd : List Char :=
  "ABCDEFGHIJKLMNOPQRSTUVWXYZabcdefghijklmnopqrstuvwxyz0123456789+/".toList

/-- `encodeURL`: the alphabet of `URLEncoding` and `RawURLEncoding`. -/
def encodeURL : List Char :=
  "ABCDEFGHIJKLMNOPQRSTUVWXYZabcdefghijklmnopqrstuvwxyz0123456789-_".toList

def symOf (alphabet : List Char) (i : Nat) : Char := alphabet.getD i 'A'

theorem symOf_mem {alphabet : List Char} {i : Nat} (h : i < alphabet.length) :
    symOf alphabet i ∈ alphabet := by
  rw [symOf, List.getD_eq_getElem _ _ h]
  exact List.getElem_mem h

/-- `enc.decodeMap[b]`: the position of byte `b` in the alphabet; `none` for `0xFF`. -/
def decodeMapOf (alphabet : List Char) (b : UInt8) : Option Nat :=
  alphabet.findIdx? fun c => c.toNat = b.toNat

/-- Each of the 64 symbols is one byte in UTF-8, which `decodeMap` sends back to its position. -/
def ValidAlphabet (alphabet : List Char) : Prop :=
  ∀ i : Fin 64, String.utf8EncodeChar (symOf alphabet i) = [(symOf alphabet i).toNat.toUInt8] ∧
    decodeMapOf alphabet (symOf alphabet i).toNat.toUInt8 = some i

instance : DecidablePred ValidAlphabet := fun _ => inferInstanceAs (Decidable (∀ _ : Fin 64, _))

/-- A raw (unpadded) `base64.Encoding`: its alphabet, valid. -/
structure Encoding where
  alphabet : List Char
  valid : ValidAlphabet alphabet

def rawStdEncoding : Encoding := ⟨encodeStd, by decide⟩

def rawURLEncoding : Encoding := ⟨encodeURL, by decide⟩

/-- `[]byte(s)`: the UTF-8 bytes of a string. -/
def bytesOf (s : Str) : List UInt8 := s.flatMap String.utf8EncodeChar

/-- The four 6-bit groups of a 24-bit `val`, most significant first. -/
def sextets (val : Nat) : List Nat := [val / 2 ^ 18 % 64, val / 2 ^ 12 % 64, val / 2 ^ 6 % 64, val % 64]

/-- The bytes of a quantum of symbols: its 24 bits give `dbuf.length - 1` bytes. -/
def assemble (dbuf : List Nat) : List UInt8 :=
  let val := dbuf.getD 0 0 * 2 ^ 18 + dbuf.getD 1 0 * 2 ^ 12 + dbuf.getD 2 0 * 2 ^ 6 + dbuf.getD 3 0
  ([val / 2 ^ 16 % 256, val / 2 ^ 8 % 256, val % 256].take (dbuf.length - 1)).map Nat.toUInt8

namespace Encoding

def sym (enc : Encoding) (i : Nat) : Char := symOf enc.alphabet i

def decodeMap (enc : Encoding) (b : UInt8) : Option Nat := decodeMapOf enc.alphabet b

def symByte (enc : Encoding) (i : Nat) : UInt8 := (enc.sym i).toNat.toUInt8

/-- `enc.EncodeToString`: three bytes give four symbols, a last one or two bytes two or three. -/
def encodeToString (enc : Encoding) : List UInt8 → Str
  | a :: b :: c :: src =>
    (sextets (a.toNat * 2 ^ 16 + b.toNat * 2 ^ 8 + c.toNat)).map enc.sym ++ enc.encodeToString src
  | [a, b] => ((sextets (a.toNat * 2 ^ 16 + b.toNat * 2 ^ 8)).take 3).map enc.sym
  | [a] => ((sextets (a.toNat * 2 ^ 16)).take 2).map enc.sym
  | [] => []

/-- `enc.Decode`, `decodeQuantum` inlined; an error is the offset `CorruptInputError` reports. -/
def decodeQuantums (enc : Encoding) : List Nat → List UInt8 → Nat → Except Nat (List UInt8)
  | dbuf, [], si =>
    match dbuf with
    | [] => .ok []
    | [_] => .error (si - 1)
    | _ => .ok (assemble dbuf)
  | dbuf, b :: src, si =>
    match enc.decodeMap b with
    | some v =>
      if dbuf.length = 3 then (assemble (dbuf ++ [v]) ++ ·) <$> enc.decodeQuantums [] src (si + 1)
      else enc.decodeQuantums (dbuf ++ [v]) src (si + 1)
    | none => if b = 10 ∨ b = 13 then enc.decodeQuantums dbuf src (si + 1) else .error si

def decodeString (enc : Encoding) (s : Str) : Except Str (List UInt8) :=
  (enc.decodeQuantums [] (bytesOf s) 0).mapError fun e =>
    "illegal base64 data at input byte ".toList ++ Fmt.formatDecimal e

theorem bytesOf_map_sym (enc : Encoding) {l : List Nat} (hl : ∀ i ∈ l, i < 64) :
    bytesOf (l.map enc.sym) = l.map enc.symByte := by
  induction l with
  | nil => rfl
  | cons i l ih =>
    simp only [bytesOf, List.map_cons, List.flatMap_cons] at ih ⊢
    rw [show enc.sym i = symOf enc.alphabet (⟨i, hl i (List.mem_cons_self i l)⟩ : Fin 64) from rfl,
      (enc.valid _).1, ih fun j hj => hl j (List.mem_cons_of_mem i hj)]
    rfl

theorem decodeQuantums_symByte (enc : Encoding) {dbuf : List Nat} {i : Nat} (hi : i < 64)
    (src : List UInt8) (si : Nat) : enc.decodeQuantums dbuf (enc.symByte i :: src) si =
      if dbuf.length = 3 then (assemble (dbuf ++ [i]) ++ ·) <$> enc.decodeQuantums [] src (si + 1)
      else enc.decodeQuantums (dbuf ++ [i]) src (si + 1) := by
  rw [decodeQuantums, show enc.decodeMap (enc.symByte i) = some i from (enc.valid ⟨i, hi⟩).2]

end Encoding

open Encoding

theorem sextets_lt (val : Nat) : ∀ i ∈ sextets val, i < 64 := by
  simp only [sextets, List.mem_cons, List.mem_singleton, List.not_mem_nil, or_false]
  rintro i (rfl | rfl | rfl | rfl) <;> omega

theorem toUInt8_of_eq {x : Nat} {a : UInt8} (h : x = a.toNat) : x.toUInt8 = a :=
  UInt8.toNat.inj (by show x % 256 = a.toNat; have := a.toNat_lt; omega)

theorem assemble_sextets (a b c : UInt8) :
    assemble (sextets (a.toNat * 2 ^ 16 + b.toNat * 2 ^ 8 + c.toNat)) = [a, b, c] := by
  have := a.toNat_lt; have := b.toNat_lt; have := c.toNat_lt
  simp only [assemble, sextets, List.getD_cons_zero, List.getD_cons_succ, List.length_cons,
    List.length_nil, List.take, List.map_cons, List.map_nil]
  simp only [List.cons.injEq, and_true]
  exact ⟨toUInt8_of_eq (by omega), toUInt8_of_eq (by omega), toUInt8_of_eq (by omega)⟩

theorem assemble_sextets_two (a b : UInt8) :
    assemble ((sextets (a.toNat * 2 ^ 16 + b.toNat * 2 ^ 8)).take 3) = [a, b] := by
  have := a.toNat_lt; have := b.toNat_lt
  simp only [assemble, sextets, List.take, List.getD_cons_zero, List.getD_cons_succ,
    List.getD_nil, List.length_cons, List.length_nil, List.map_cons, List.map_nil]
  simp only [List.cons.injEq, and_true]
  exact ⟨toUInt8_of_eq (by omega), toUInt8_of_eq (by omega)⟩

theorem assemble_sextets_one (a : UInt8) :
    assemble ((sextets (a.toNat * 2 ^ 16)).take 2) = [a] := by
  have := a.toNat_lt
  simp only [assemble, sextets, List.take, List.getD_cons_zero, List.getD_cons_succ,
    List.getD_nil, List.length_cons, List.length_nil, List.map_cons, List.map_nil]
  simp only [List.cons.injEq, and_true]
  exact toUInt8_of_eq (by omega)

theorem bytesOf_append (s t : Str) : bytesOf (s ++ t) = bytesOf s ++ bytesOf t :=
  List.flatMap_append _ _ _

theorem sextet_lt (val k : Nat) : val / 2 ^ k % 64 < 64 := Nat.mod_lt _ (by norm_num)

section Codec

variable (enc : Encoding)

theorem decodeQuantums_sextets (val : Nat) (src : List UInt8) (si : Nat) :
    enc.decodeQuantums [] ((sextets val).map enc.symByte ++ src) si =
      (assemble (sextets val) ++ ·) <$> enc.decodeQuantums [] src (si + 4) := by
  show enc.decodeQuantums [] (enc.symByte _ :: enc.symByte _ :: enc.symByte _ :: enc.symByte _ :: src)
    si = _
  rw [decodeQuantums_symByte enc (sextet_lt val 18), if_neg (by simp),
    decodeQuantums_symByte enc (sextet_lt val 12), if_neg (by simp),
    decodeQuantums_symByte enc (sextet_lt val 6), if_neg (by simp),
    decodeQuantums_symByte enc (Nat.mod_lt val (by norm_num)), if_pos (by simp)]
  rfl

theorem decodeQuantums_take_sextets (val : Nat) {k : Nat} (hk : 2 ≤ k ∧ k ≤ 3) (si : Nat) :
    enc.decodeQuantums [] (((sextets val).take k).map enc.symByte) si =
      .ok (assemble ((sextets val).take k)) := by
  obtain rfl | rfl : k = 2 ∨ k = 3 := by omega
  · show enc.decodeQuantums [] [enc.symByte _, enc.symByte _] si = _
    rw [decodeQuantums_symByte enc (sextet_lt val 18), if_neg (by simp),
      decodeQuantums_symByte enc (sextet_lt val 12), if_neg (by simp)]
    rfl
  · show enc.decodeQuantums [] [enc.symByte _, enc.symByte _, enc.symByte _] si = _
    rw [decodeQuantums_symByte enc (sextet_lt val 18), if_neg (by simp),
      decodeQuantums_symByte enc (sextet_lt val 12), if_neg (by simp),
      decodeQuantums_symByte enc (sextet_lt val 6), if_neg (by simp)]
    rfl

theorem decodeQuantums_encodeToString (src : List UInt8) (si : Nat) :
    enc.decodeQuantums [] (bytesOf (enc.encodeToString src)) si = .ok src := by
  have take_lt : ∀ val k, ∀ i ∈ (sextets val).take k, i < 64 := fun val _ i hi =>
    sextets_lt val i (List.mem_of_mem_take hi)
  induction src using encodeToString.induct enc generalizing si with
  | case1 a b c src ih =>
    rw [encodeToString, bytesOf_append, bytesOf_map_sym enc (sextets_lt _), decodeQuantums_sextets,
      ih, assemble_sextets]
    rfl
  | case2 a b =>
    rw [encodeToString, bytesOf_map_sym enc (take_lt _ 3),
      decodeQuantums_take_sextets enc _ (by omega), assemble_sextets_two]
  | case3 a =>
    rw [encodeToString, bytesOf_map_sym enc (take_lt _ 2),
      decodeQuantums_take_sextets enc _ (by omega), assemble_sextets_one]
  | case4 => rfl

theorem decodeString_encodeToString (src : List UInt8) :
    enc.decodeString (enc.encodeToString src) = .ok src := by
  rw [decodeString, decodeQuantums_encodeToString]
  rfl

theorem mem_encodeToString {src : List UInt8} {d : Char} (h : d ∈ enc.encodeToString src) :
    ∃ i < 64, enc.sym i = d := by
  induction src using encodeToString.induct enc with
  | case1 a b c src ih =>
    rw [encodeToString, List.mem_append, List.mem_map] at h
    rcases h with ⟨i, hi, rfl⟩ | h
    · exact ⟨i, sextets_lt _ i hi, rfl⟩
    · exact ih h
  | case2 a b | case3 a =>
    rw [encodeToString, List.mem_map] at h
    obtain ⟨i, hi, rfl⟩ := h
    exact ⟨i, sextets_lt _ i (List.mem_of_mem_take hi), rfl⟩
  | case4 => cases h

theorem length_encodeToString (src : List UInt8) :
    (enc.encodeToString src).length = (4 * src.length + 2) / 3 := by
  induction src using encodeToString.induct enc with
  | case1 a b c src ih => simp only [encodeToString, List.length_append, ih, sextets]; simp; omega
  | case2 a b | case3 a => simp [encodeToString, sextets]
  | case4 => rfl

end Codec

example : rawStdEncoding.decodeString "AQ\nID".toList = .ok [1, 2, 3] := by decide

example : rawStdEncoding.decodeString "AQI".toList = .ok [1, 2] ∧
    rawStdEncoding.decodeString "A".toList = .error "illegal base64 data at input byte 0".toList := by
  decide

/-- The standard encoder never writes the `$` that separates PHC fields. -/
theorem dollar_not_mem_encodeToString (src : List UInt8) :
    '$' ∉ rawStdEncoding.encodeToString src := fun h =>
  let ⟨i, hi, he⟩ := mem_encodeToString rawStdEncoding h
  (show ∀ i : Fin 64, rawStdEncoding.sym i ≠ '$' by decide) ⟨i, hi⟩ he

end Authkit.Base64
