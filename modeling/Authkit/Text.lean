import Mathlib

namespace Authkit

/-- A Go string, read as the sequence of its code points. -/
abbrev Str := List Char

/-- Go's `(value, error)` results are compared as values. -/
instance decEqExcept {ε α : Type} [DecidableEq ε] [DecidableEq α] : DecidableEq (Except ε α)
  | .ok a, .ok b => decidable_of_iff (a = b) (by simp)
  | .error a, .error b => decidable_of_iff (a = b) (by simp)
  | .ok _, .error _ => isFalse (by simp)
  | .error _, .ok _ => isFalse (by simp)

theorem except_bind_eq_ok {ε α β : Type} {x : Except ε α} {g : α → Except ε β} {b : β} :
    x.bind g = .ok b ↔ ∃ a, x = .ok a ∧ g a = .ok b := by
  cases x <;> simp [Except.bind]

theorem except_mapError_eq_ok {ε ε' α : Type} {x : Except ε α} {f : ε → ε'} {a : α} :
    x.mapError f = .ok a ↔ x = .ok a := by
  cases x <;> simp [Except.mapError]

/-- `unicode.IsSpace`: the Unicode `White_Space` table. -/
def isSpace (c : Char) : Bool :=
  let n := c.toNat
  (9 ≤ n && n ≤ 13) || n == 32 || n == 0x85 || n == 0xA0 || n == 0x1680 ||
    (0x2000 ≤ n && n ≤ 0x200A) || n == 0x2028 || n == 0x2029 || n == 0x202F ||
    n == 0x205F || n == 0x3000

def trimSpace (s : Str) : Str := (s.dropWhile isSpace).rdropWhile isSpace

/-- `strings.TrimRight(s, cutset)` for a one-character cutset. -/
def trimRight (s : Str) (c : Char) : Str := s.rdropWhile (· == c)

def hasPrefix (s pre : Str) : Bool := pre.isPrefixOf s

def trimPrefix (s pre : Str) : Str := if hasPrefix s pre then s.drop pre.length else s

/-- `unicode.ToLower` as far as a comparison with `[a-z0-9]`, white space and `-_` can tell. -/
def toLower (c : Char) : Char :=
  if 'A' ≤ c ∧ c ≤ 'Z' then Char.ofNat (c.toNat + 32)
  else if c.toNat = 0x130 then 'i'
  else if c.toNat = 0x212A then 'k'
  else c

/-- A string with no white space at either end, the strings `trimSpace` fixes. -/
def Trimmed (s : Str) : Prop :=
  (∀ c ∈ s.head?, isSpace c = false) ∧ ∀ c ∈ s.getLast?, isSpace c = false

instance : DecidablePred Trimmed := fun _ => inferInstanceAs (Decidable (_ ∧ _))

/-- Two strings that differ at a position both have. -/
def mismatch : Str → Str → Bool
  | a :: p, b :: q => a != b || mismatch p q
  | _, _ => false

theorem isSpace_newline : isSpace '\n' = true := by decide

@[simp] theorem hasPrefix_append_self (p v : Str) : hasPrefix (p ++ v) p = true := by
  simp [hasPrefix, List.isPrefixOf_iff_prefix]

@[simp] theorem trimPrefix_append_self (p v : Str) : trimPrefix (p ++ v) p = v := by
  simp [trimPrefix]

theorem hasPrefix_append_of_mismatch {p q : Str} (h : mismatch p q = true) (v : Str) :
    hasPrefix (q ++ v) p = false := by
  induction p generalizing q with
  | nil => simp [mismatch] at h
  | cons a p ih =>
    cases q with
    | nil => simp [mismatch] at h
    | cons b q =>
      simp only [mismatch, Bool.or_eq_true, bne_iff_ne] at h
      simp only [hasPrefix, List.cons_append, List.isPrefixOf, Bool.and_eq_false_iff] at ih ⊢
      rcases h with h | h
      · exact .inl (by simpa using h)
      · exact .inr (ih h)

theorem dropWhile_append_of_head {p : Char → Bool} {s : Str} (c : Char) (hc : p c = false)
    (t : Str) : (c :: s ++ t).dropWhile p = c :: s ++ t := by
  simp [List.dropWhile_cons, hc]

theorem rdropWhile_of_last {p : Char → Bool} {s : Str} (hs : ∀ c ∈ s.getLast?, p c = false) :
    s.rdropWhile p = s :=
  List.rdropWhile_eq_self_iff.mpr fun hne => by simpa using hs _ (List.getLast?_eq_getLast s hne)

theorem rdropWhile_append_of_last {p : Char → Bool} {s : Str} (hs : ∀ c ∈ s.getLast?, p c = false)
    {t : Str} (ht : ∀ c ∈ t, p c = true) : (s ++ t).rdropWhile p = s := by
  induction t using List.reverseRecOn with
  | nil => rw [List.append_nil, rdropWhile_of_last hs]
  | append_singleton t x ih =>
    rw [← List.append_assoc, List.rdropWhile_concat_pos _ _ _ (ht x (by simp))]
    exact ih fun c hc => ht c (by simp [hc])

theorem prefix_rdropWhile_append {p : Char → Bool} {s : Str}
    (hs : ∀ c ∈ s.getLast?, p c = false) (v : Str) : s <+: (s ++ v).rdropWhile p := by
  induction v using List.reverseRecOn with
  | nil => simp [rdropWhile_of_last hs]
  | append_singleton v x ih =>
    rw [← List.append_assoc, List.rdropWhile_concat]
    split
    · exact ih
    · exact (List.prefix_append _ _).trans (List.prefix_append _ _)

theorem trimSpace_append_spaces {s t : Str} (hs : Trimmed s) (ht : ∀ c ∈ t, isSpace c = true) :
    trimSpace (s ++ t) = s := by
  unfold trimSpace
  cases s with
  | nil =>
    rw [List.nil_append, List.dropWhile_eq_nil_iff.mpr ht]
    rfl
  | cons c s =>
    rw [dropWhile_append_of_head c (hs.1 c rfl)]
    exact rdropWhile_append_of_last hs.2 ht

theorem trimSpace_of_trimmed {s : Str} (hs : Trimmed s) : trimSpace s = s := by
  simpa using trimSpace_append_spaces (t := []) hs (by simp)

theorem prefix_trimSpace_append {p : Str} (hp : p ≠ []) (hs : Trimmed p) (v : Str) :
    p <+: trimSpace (p ++ v) := by
  obtain ⟨c, p, rfl⟩ := List.exists_cons_of_ne_nil hp
  unfold trimSpace
  rw [dropWhile_append_of_head c (hs.1 c rfl)]
  exact prefix_rdropWhile_append hs.2 v

theorem hasPrefix_trimSpace_of_prefix {p q : Str} (hq : q <+: p) (hq0 : q ≠ []) (ht : Trimmed q)
    (v : Str) : hasPrefix (trimSpace (p ++ v)) q = true := by
  obtain ⟨r, rfl⟩ := hq
  rw [List.append_assoc]
  exact List.isPrefixOf_iff_prefix.mpr (prefix_trimSpace_append hq0 ht _)

theorem trimSpace_ne_nil {c : Char} (hc : isSpace c = false) (s : Str) : trimSpace (c :: s) ≠ [] := by
  have h := prefix_trimSpace_append (p := [c]) (List.cons_ne_nil c []) ⟨by simpa using hc,
    by simpa using hc⟩ s
  exact List.ne_nil_of_length_pos (lt_of_lt_of_le (by simp) h.length_le)

theorem not_mem_of_mem_splitOn {c : Char} {s l : Str} (h : l ∈ s.splitOn c) : c ∉ l := by
  induction s generalizing l with
  | nil => simp_all
  | cons x s ih =>
    simp only [List.splitOn, List.splitOnP_cons, beq_iff_eq] at h ih
    split at h
    · rcases List.mem_cons.mp h with rfl | h
      · simp
      · exact ih h
    · rename_i hx
      cases hs : s.splitOnP (· == c) with
      | nil => exact absurd hs (List.splitOnP_ne_nil _ _)
      | cons l₀ ls =>
        rw [hs, List.modifyHead_cons, List.mem_cons] at h
        rcases h with rfl | h
        · exact List.not_mem_cons_of_ne_of_not_mem (Ne.symm hx) (ih (by simp [hs]))
        · exact ih (by simp [hs, h])

theorem intercalate_cons (c : Char) (l : Str) (ls : List Str) :
    [c].intercalate (l :: ls) = l ++ (ls.map (c :: ·)).flatten := by
  induction ls generalizing l with
  | nil => simp [List.intercalate]
  | cons l' ls ih =>
    have := ih l'
    simp only [List.intercalate, List.intersperse_cons₂, List.flatten_cons, List.map_cons] at this ⊢
    rw [this]
    simp

end Authkit
