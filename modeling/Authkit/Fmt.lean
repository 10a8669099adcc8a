import Authkit.Text

namespace Authkit.Fmt

def digitChar (d : Nat) : Char := Char.ofNat (48 + d)

/-- The loop of `fmtInteger` in base 10: the digits of `u` in front of `buf`; `fuel` bounds it. -/
def fmtDigits : Nat → Nat → Str → Str
  | 0, u, buf => digitChar u :: buf
  | fuel + 1, u, buf =>
    if u < 10 then digitChar u :: buf else fmtDigits fuel (u / 10) (digitChar (u % 10) :: buf)

def formatDecimal (n : Nat) : Str := fmtDigits n n []

/-- `%0<width>d`: zeros in front of the digits up to `width` of them. -/
def formatDecimalPad (width n : Nat) : Str :=
  List.replicate (width - (formatDecimal n).length) '0' ++ formatDecimal n

def formatInt (i : Int) : Str :=
  if i < 0 then '-' :: formatDecimal i.natAbs else formatDecimal i.natAbs

/-- The value `strconv.ParseUint(tok, 10, 64)` accumulates over a digit string. -/
def digitsValue (tok : Str) : Nat := tok.foldl (fun n d => n * 10 + (d.toNat - 48)) 0

/-- `ss.SkipSpace` for `Sscanf`, where a newline is an error rather than space. -/
def skipSpace : Str → Except Str Str
  | [] => .ok []
  | c :: s =>
    if c = '\n' ∨ c = '\r' ∧ s.head? = some '\n' then .error "unexpected newline".toList
    else if isSpace c then skipSpace s
    else .ok (c :: s)

/-- `ss.advance` over a literal of the format that has no space and no verb. -/
def scanLiteral : Str → Str → Except Str Str
  | [], s => .ok s
  | _ :: _, [] => .error "unexpected EOF".toList
  | c :: lit, d :: s =>
    if c = d then scanLiteral lit s else .error "input does not match format".toList

/-- A `%d` verb into a `uint32`: at least one digit, checked against 64 and then 32 bits. -/
def scanUint32 (str : Str) : Except Str (Nat × Str) := do
  let s ← skipSpace str
  match s with
  | [] => throw "EOF".toList
  | c :: _ =>
    if !c.isDigit then
      throw "expected integer".toList
    let tok := s.takeWhile Char.isDigit
    let i := digitsValue tok
    if 2 ^ 64 ≤ i then
      throw ("strconv.ParseUint: parsing ".toList ++ '"' :: tok ++ "\": value out of range".toList)
    if 2 ^ 32 ≤ i then
      throw ("unsigned integer overflow on token ".toList ++ tok)
    return (i, s.dropWhile Char.isDigit)

/-- `fmt.Sscanf(str, "m=%d,t=%d,p=%d", &m, &t, &par)` with three `uint32` operands. -/
def sscanfParams (str : Str) : Except Str (Nat × Nat × Nat) := do
  let s ← scanLiteral "m=".toList str
  let (m, s) ← scanUint32 s
  let s ← scanLiteral ",t=".toList s
  let (t, s) ← scanUint32 s
  let s ← scanLiteral ",p=".toList s
  let (par, _) ← scanUint32 s
  return (m, t, par)

theorem digitChar_isDigit {d : Nat} (hd : d < 10) : (digitChar d).isDigit := by
  interval_cases d <;> decide

theorem digitChar_toNat {d : Nat} (hd : d < 10) : (digitChar d).toNat - 48 = d := by
  interval_cases d <;> decide

theorem foldl_digit_step (s : Str) (acc : Nat) :
    s.foldl (fun n d => n * 10 + (d.toNat - 48)) acc = acc * 10 ^ s.length + digitsValue s := by
  induction s generalizing acc with
  | nil => simp [digitsValue]
  | cons c s ih =>
    simp only [digitsValue, List.foldl_cons, List.length_cons, zero_mul, zero_add]
    rw [ih, ih (c.toNat - 48)]
    ring

theorem digitsValue_cons (c : Char) (s : Str) :
    digitsValue (c :: s) = (c.toNat - 48) * 10 ^ s.length + digitsValue s := by
  rw [digitsValue, List.foldl_cons, foldl_digit_step, zero_mul, zero_add]

theorem fmtDigits_ne_nil (fuel u : Nat) (buf : Str) : fmtDigits fuel u buf ≠ [] := by
  induction fuel generalizing u buf with
  | zero => simp [fmtDigits]
  | succ fuel ih =>
    unfold fmtDigits
    split_ifs
    · simp
    · exact ih _ _

theorem mem_digitChar_cons {u : Nat} (hu : u < 10) {buf : Str} {c : Char}
    (hc : c ∈ digitChar u :: buf) : c.isDigit ∨ c ∈ buf :=
  (List.mem_cons.mp hc).imp (fun h => by rw [h]; exact digitChar_isDigit hu) id

theorem fmtDigits_spec (fuel u : Nat) (hu : u ≤ fuel) (buf : Str) :
    (∀ c ∈ fmtDigits fuel u buf, c.isDigit ∨ c ∈ buf) ∧
      digitsValue (fmtDigits fuel u buf) = u * 10 ^ buf.length + digitsValue buf := by
  induction fuel generalizing u buf with
  | zero =>
    obtain rfl : u = 0 := by omega
    exact ⟨fun c => mem_digitChar_cons (by omega), by rw [fmtDigits, digitsValue_cons]; rfl⟩
  | succ fuel ih =>
    unfold fmtDigits
    split_ifs with h10
    · exact ⟨fun c => mem_digitChar_cons h10, by rw [digitsValue_cons, digitChar_toNat h10]⟩
    · obtain ⟨hd, hv⟩ := ih (u / 10) (by omega) (digitChar (u % 10) :: buf)
      have hmod : u % 10 < 10 := Nat.mod_lt u (by omega)
      refine ⟨fun c hc => (hd c hc).elim .inl (mem_digitChar_cons hmod), ?_⟩
      · rw [hv, digitsValue_cons, digitChar_toNat hmod, List.length_cons, pow_succ]
        conv_rhs => rw [← Nat.div_add_mod u 10]
        ring

theorem formatDecimal_isDigit (n : Nat) : ∀ c ∈ formatDecimal n, c.isDigit := fun c hc =>
  ((fmtDigits_spec n n le_rfl []).1 c hc).resolve_right (List.not_mem_nil c)

theorem digitsValue_formatDecimal (n : Nat) : digitsValue (formatDecimal n) = n := by
  simpa [digitsValue] using (fmtDigits_spec n n le_rfl []).2

example : formatDecimal 4294967295 = "4294967295".toList := by decide

theorem length_fmtDigits_le (fuel u : Nat) (buf : Str) (k : Nat) (hu : u < 10 ^ (k + 1)) :
    (fmtDigits fuel u buf).length ≤ buf.length + k + 1 := by
  induction fuel generalizing u buf k with
  | zero => simp [fmtDigits]
  | succ fuel ih =>
    unfold fmtDigits
    split_ifs with h10
    · simp
    · cases k with
      | zero => simp at hu; omega
      | succ k =>
        have := ih (u / 10) (digitChar (u % 10) :: buf) k
          ((Nat.div_lt_iff_lt_mul (by norm_num)).mpr (by rwa [← pow_succ]))
        simp only [List.length_cons] at this
        omega

theorem length_formatDecimal_le {n k : Nat} (hn : n < 10 ^ (k + 1)) :
    (formatDecimal n).length ≤ k + 1 := by
  simpa using length_fmtDigits_le n n [] k hn

theorem formatDecimalPad_isDigit (width n : Nat) : ∀ c ∈ formatDecimalPad width n, c.isDigit := by
  intro c hc
  rcases List.mem_append.mp hc with hc | hc
  · rw [List.eq_of_mem_replicate hc]
    rfl
  · exact formatDecimal_isDigit n c hc

theorem length_formatDecimalPad {width n : Nat} (hn : n < 10 ^ (width + 1)) :
    (formatDecimalPad (width + 1) n).length = width + 1 := by
  have := length_formatDecimal_le hn
  simp only [formatDecimalPad, List.length_append, List.length_replicate]
  omega

theorem isSpace_of_isDigit {c : Char} (hc : c.isDigit) : isSpace c = false := by
  have hn : 48 ≤ c.toNat ∧ c.toNat ≤ 57 := by
    simp only [Char.isDigit, Bool.and_eq_true, decide_eq_true_eq] at hc
    exact hc
  simp [isSpace]
  omega

theorem isSpace_formatInt (i : Int) : ∀ c ∈ formatInt i, isSpace c = false := by
  intro c hc
  unfold formatInt at hc
  split_ifs at hc
  · rcases List.mem_cons.mp hc with rfl | hc
    · rfl
    · exact isSpace_of_isDigit (formatDecimal_isDigit _ c hc)
  · exact isSpace_of_isDigit (formatDecimal_isDigit _ c hc)

theorem skipSpace_of_isDigit {c : Char} (hc : c.isDigit) (s : Str) :
    skipSpace (c :: s) = .ok (c :: s) := by
  have hn : 48 ≤ c.toNat ∧ c.toNat ≤ 57 := by
    simp only [Char.isDigit, Bool.and_eq_true, decide_eq_true_eq] at hc
    exact hc
  have hr : c ≠ '\r' := fun h => by subst h; exact absurd hn (by decide)
  have hl : c ≠ '\n' := fun h => by subst h; exact absurd hn (by decide)
  simp [skipSpace, hr, hl, isSpace_of_isDigit hc]

theorem scanUint32_formatDecimal {n : Nat} (hn : n < 2 ^ 32) (rest : Str)
    (hrest : ∀ c ∈ rest.head?, c.isDigit = false) :
    scanUint32 (formatDecimal n ++ rest) = .ok (n, rest) := by
  have hdig := formatDecimal_isDigit n
  obtain ⟨c, s, hcs⟩ := List.exists_cons_of_ne_nil (fmtDigits_ne_nil n n [])
  have hc : c.isDigit := hdig c (by rw [formatDecimal, hcs]; exact List.mem_cons_self c s)
  have hrest' : rest.takeWhile Char.isDigit = [] ∧ rest.dropWhile Char.isDigit = rest := by
    cases rest with
    | nil => exact ⟨rfl, rfl⟩
    | cons d rest =>
      have hd : ¬ d.isDigit = true := by simpa using hrest d rfl
      exact ⟨List.takeWhile_cons_of_neg hd, List.dropWhile_cons_of_neg hd⟩
  have htake : (formatDecimal n ++ rest).takeWhile Char.isDigit = formatDecimal n := by
    rw [List.takeWhile_append_of_pos hdig, hrest'.1, List.append_nil]
  have hdrop : (formatDecimal n ++ rest).dropWhile Char.isDigit = rest := by
    rw [List.dropWhile_append_of_pos hdig, hrest'.2]
  have hform : formatDecimal n ++ rest = c :: (s ++ rest) := by
    rw [formatDecimal, hcs, List.cons_append]
  have h64 : ¬ 2 ^ 64 ≤ n := by omega
  have h32 : ¬ 2 ^ 32 ≤ n := by omega
  rw [hform] at htake hdrop ⊢
  simp only [scanUint32, bind, Except.bind, skipSpace_of_isDigit hc, hc, Bool.not_true, htake,
    hdrop, digitsValue_formatDecimal, pure, Except.pure, h64, h32, if_false]
  rfl

theorem scanLiteral_append (lit s : Str) : scanLiteral lit (lit ++ s) = .ok s := by
  induction lit with
  | nil => rfl
  | cons c lit ih => simp [scanLiteral, ih]

theorem sscanfParams_format {m t par : Nat} (hm : m < 2 ^ 32) (ht : t < 2 ^ 32)
    (hp : par < 2 ^ 32) :
    sscanfParams ("m=".toList ++ formatDecimal m ++ ",t=".toList ++ formatDecimal t ++
      ",p=".toList ++ formatDecimal par) = .ok (m, t, par) := by
  have hm' := scanUint32_formatDecimal hm
    (",t=".toList ++ (formatDecimal t ++ (",p=".toList ++ formatDecimal par))) (by simp)
  have ht' := scanUint32_formatDecimal ht (",p=".toList ++ formatDecimal par) (by simp)
  have hp' := scanUint32_formatDecimal hp [] (by simp)
  rw [List.append_nil] at hp'
  simp only [sscanfParams, List.append_assoc, bind, Except.bind, scanLiteral_append, hm', ht', hp']
  rfl

end Authkit.Fmt
