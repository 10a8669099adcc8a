import Authkit.Fmt

namespace Authkit.Core

/-- The runes `cleanUsername` keeps: `[a-z0-9_]`. -/
def isUsernameRune (r : Char) : Bool :=
  ('a' ≤ r && r ≤ 'z') || ('0' ≤ r && r ≤ '9') || r == '_'

/-- `cleanUsername(s)`; only ASCII runes are kept, so its byte counts count runes. -/
def cleanUsername (s : Str) : Str :=
  let s := (trimSpace s).map toLower
  if s = [] then [] else
    let out := s.filter isUsernameRune
    let out := if out = [] then "user".toList else out
    let out := if out.headD 'a' < 'a' ∨ out.headD 'a' > 'z' then 'u' :: out else out
    if out.length > 32 then out.take 32 else out

/-- The first of `candidates` that `getUserByUsername` finds no user for. -/
def firstFree (taken : Str → Bool) (candidates : List Str) : Option Str :=
  candidates.find? fun c => !taken c

/-- The first lines of `GenerateAvailableUsername`: the cleaned base, `user` if nothing is left. -/
def cleanedBase (base : Str) : Str :=
  let base := cleanUsername base
  if base = [] then "user".toList else base

/-- The candidates of the numbered loop: `base` followed by `1` up to `999`. -/
def numberedCandidates (base : Str) : List Str :=
  (List.range' 1 999).map fun i => base ++ Fmt.formatDecimal i

/-- The candidates of the fallback loop: `base` followed by the `%04d` of each try's draw. -/
def randomCandidates (rnd : Nat → Fin 10000) (base : Str) : List Str :=
  (List.range 100).map fun tries => base ++ Fmt.formatDecimalPad 4 (rnd tries : Nat)

/-- `GenerateAvailableUsername`; `taken` is `getUserByUsername` finding a user, `rnd` the draws. -/
def generateAvailableUsername (taken : Str → Bool) (rnd : Nat → Fin 10000) (base : Str) : Str :=
  let base := cleanedBase base
  if !taken base then base
  else
    match firstFree taken (numberedCandidates base) with
    | some candidate => candidate
    | none =>
      match firstFree taken (randomCandidates rnd base) with
      | some candidate => candidate
      | none => base ++ "_user".toList

/-- `DeriveUsernameForOAuth`; the local part is what stands before an `@` that is not first. -/
def deriveUsernameForOAuth (taken : Str → Bool) (rnd : Nat → Fin 10000)
    (provider preferred email displayName : Str) : Str :=
  if trimSpace preferred ≠ [] then generateAvailableUsername taken rnd preferred
  else
    let localPart :=
      if '@' ∈ email ∧ email.head? ≠ some '@' then email.takeWhile (· != '@') else email
    if trimSpace email ≠ [] ∧ trimSpace localPart ≠ [] then
      generateAvailableUsername taken rnd localPart
    else if trimSpace displayName ≠ [] then generateAvailableUsername taken rnd displayName
    else
      let base := if trimSpace provider = [] then "user".toList else provider
      generateAvailableUsername taken rnd (base ++ "_user".toList)

/-- What `cleanUsername` makes of a non-blank string: not empty, a letter first, kept runes only. -/
structure Shaped (s : Str) : Prop where
  ne_nil : s ≠ []
  head : ∀ c ∈ s.head?, 'a' ≤ c ∧ c ≤ 'z'
  runes : ∀ c ∈ s, isUsernameRune c = true

instance : DecidablePred Shaped := fun s =>
  decidable_of_iff (s ≠ [] ∧ (∀ c ∈ s.head?, 'a' ≤ c ∧ c ≤ 'z') ∧ ∀ c ∈ s, isUsernameRune c = true)
    ⟨fun ⟨h₁, h₂, h₃⟩ => ⟨h₁, h₂, h₃⟩, fun ⟨h₁, h₂, h₃⟩ => ⟨h₁, h₂, h₃⟩⟩

theorem isUsernameRune_iff (c : Char) : isUsernameRune c = true ↔
    (97 ≤ c.toNat ∧ c.toNat ≤ 122) ∨ (48 ≤ c.toNat ∧ c.toNat ≤ 57) ∨ c.toNat = 95 := by
  have : c = '_' ↔ c.toNat = 95 := ⟨fun h => h ▸ rfl, fun h => Char.ext (UInt32.toNat.inj h)⟩
  simp only [isUsernameRune, Bool.or_eq_true, Bool.and_eq_true, decide_eq_true_eq, beq_iff_eq,
    this, or_assoc]
  rfl

theorem isUsernameRune_of_isDigit {c : Char} (hc : c.isDigit) : isUsernameRune c = true := by
  simp only [Char.isDigit, Bool.and_eq_true, decide_eq_true_eq] at hc
  exact (isUsernameRune_iff c).mpr (.inr (.inl hc))

theorem isSpace_of_isUsernameRune {c : Char} (hc : isUsernameRune c = true) :
    isSpace c = false := by
  rw [isUsernameRune_iff] at hc
  simp [isSpace]
  omega

theorem toLower_of_isUsernameRune {c : Char} (hc : isUsernameRune c = true) : toLower c = c := by
  rw [isUsernameRune_iff] at hc
  have hA : ¬ ('A' ≤ c ∧ c ≤ 'Z') := fun hA => by
    change 65 ≤ c.toNat ∧ c.toNat ≤ 90 at hA
    omega
  rw [toLower, if_neg hA, if_neg (by omega), if_neg (by omega)]

theorem Shaped.trimmed {s : Str} (h : Shaped s) : Trimmed s :=
  ⟨fun c hc => isSpace_of_isUsernameRune (h.runes c (List.mem_of_mem_head? hc)),
    fun c hc => isSpace_of_isUsernameRune (h.runes c (List.mem_of_mem_getLast? hc))⟩

theorem Shaped.take {s : Str} (h : Shaped s) {n : Nat} (hn : 0 < n) : Shaped (s.take n) :=
  ⟨by simpa [Nat.pos_iff_ne_zero.mp hn] using h.ne_nil,
    by simpa [List.head?_take, Nat.pos_iff_ne_zero.mp hn] using h.head,
    fun c hc => h.runes c (List.mem_of_mem_take hc)⟩

theorem Shaped.append {s : Str} (h : Shaped s) {t : Str} (ht : ∀ c ∈ t, isUsernameRune c = true) :
    Shaped (s ++ t) := by
  obtain ⟨c, s, rfl⟩ := List.exists_cons_of_ne_nil h.ne_nil
  exact ⟨List.cons_ne_nil _ _, h.head,
    fun d hd => (List.mem_append.mp hd).elim (h.runes d) (ht d)⟩

theorem orUser_spec (l : Str) :
    (if l.filter isUsernameRune = [] then "user".toList else l.filter isUsernameRune) ≠ [] ∧
      ∀ c ∈ (if l.filter isUsernameRune = [] then "user".toList else l.filter isUsernameRune),
        isUsernameRune c = true := by
  split_ifs with h
  · decide
  · exact ⟨h, fun c hc => (List.mem_filter.mp hc).2⟩

theorem shaped_letterFirst {out : Str} (hne : out ≠ []) (hr : ∀ c ∈ out, isUsernameRune c = true) :
    Shaped (if out.headD 'a' < 'a' ∨ out.headD 'a' > 'z' then 'u' :: out else out) := by
  obtain ⟨c, out, rfl⟩ := List.exists_cons_of_ne_nil hne
  split_ifs with h
  · exact ⟨List.cons_ne_nil _ _, by simp,
      fun d hd => (List.mem_cons.mp hd).elim (fun e => e ▸ rfl) (hr d)⟩
  · exact ⟨List.cons_ne_nil _ _, by simpa [not_or] using h, hr⟩

theorem cap_eq_take (out : Str) : (if out.length > 32 then out.take 32 else out) = out.take 32 := by
  split_ifs with h
  · rfl
  · exact (List.take_of_length_le (by omega)).symm

theorem cleanUsername_shaped {s : Str} (hs : trimSpace s ≠ []) :
    Shaped (cleanUsername s) ∧ (cleanUsername s).length ≤ 32 := by
  have ht : (trimSpace s).map toLower ≠ [] := by simpa using hs
  simp only [cleanUsername, if_neg ht, cap_eq_take]
  have ⟨hne, hr⟩ := orUser_spec ((trimSpace s).map toLower)
  exact ⟨(shaped_letterFirst hne hr).take (by norm_num), List.length_take_le _ _⟩

theorem cleanUsername_eq_nil_iff (s : Str) : cleanUsername s = [] ↔ trimSpace s = [] := by
  by_cases hs : trimSpace s = []
  · simp [cleanUsername, hs]
  · exact iff_of_false (cleanUsername_shaped hs).1.ne_nil hs

theorem cleanUsername_of_shaped {s : Str} (h : Shaped s) : cleanUsername s = s.take 32 := by
  have hlow : (trimSpace s).map toLower = s := by
    rw [trimSpace_of_trimmed h.trimmed, List.map_congr_left fun c hc =>
      toLower_of_isUsernameRune (h.runes c hc), List.map_id']
  have hfilter : s.filter isUsernameRune = s := List.filter_eq_self.mpr h.runes
  obtain ⟨c, t, rfl⟩ := List.exists_cons_of_ne_nil h.ne_nil
  have hc := h.head c rfl
  simp only [cleanUsername, hlow, hfilter, cap_eq_take, List.cons_ne_nil, if_false,
    List.headD_cons]
  rw [if_neg (by simpa [not_or] using hc)]

theorem cleanUsername_fixed_points (s : Str) :
    (cleanUsername s = s ↔ s = [] ∨ Shaped s ∧ s.length ≤ 32) ∧
      cleanUsername (cleanUsername s) = cleanUsername s := by
  have fixed : ∀ s, s = [] ∨ Shaped s ∧ s.length ≤ 32 → cleanUsername s = s := by
    rintro s (rfl | ⟨hs, hl⟩)
    · rfl
    · rw [cleanUsername_of_shaped hs, List.take_of_length_le hl]
  have normal :
      cleanUsername s = [] ∨ Shaped (cleanUsername s) ∧ (cleanUsername s).length ≤ 32 := by
    by_cases hs : trimSpace s = []
    · exact .inl ((cleanUsername_eq_nil_iff s).mpr hs)
    · exact .inr (cleanUsername_shaped hs)
  exact ⟨⟨fun h => h ▸ normal, fixed s⟩, fixed _ normal⟩

example : cleanUsername "  Jöhn.Doe-42 ".toList = "jhndoe42".toList := by decide

example : cleanUsername "42".toList = "u42".toList := by decide

theorem firstFree_spec {taken : Str → Bool} {candidates : List Str} {c : Str}
    (h : firstFree taken candidates = some c) : c ∈ candidates ∧ taken c = false :=
  ⟨List.mem_of_find?_eq_some h, by simpa using List.find?_some h⟩

theorem firstFree_eq_none {taken : Str → Bool} {candidates : List Str} :
    firstFree taken candidates = none ↔ ∀ c ∈ candidates, taken c = true := by
  simp [firstFree, List.find?_eq_none]

theorem find?_map_range' {f : Nat → Str} {p : Str → Bool} {s n : Nat} {c : Str}
    (h : ((List.range' s n).map f).find? p = some c) :
    ∃ j, s ≤ j ∧ j < s + n ∧ c = f j ∧ p (f j) = true ∧
      ∀ k, s ≤ k → k < j → p (f k) = false := by
  induction n generalizing s with
  | zero => simp at h
  | succ n ih =>
    rw [List.range'_succ, List.map_cons, List.find?_cons] at h
    cases hp : p (f s) with
    | true =>
      simp only [hp, Option.some.injEq] at h
      exact ⟨s, le_rfl, by omega, h.symm, hp, fun k h1 h2 => absurd h2 (by omega)⟩
    | false =>
      simp only [hp] at h
      obtain ⟨j, hj1, hj2, hc, hpj, hmin⟩ := ih h
      refine ⟨j, by omega, by omega, hc, hpj, fun k hk1 hk2 => ?_⟩
      rcases Nat.eq_or_lt_of_le hk1 with rfl | hk1
      · exact hp
      · exact hmin k hk1 hk2

theorem cleanedBase_shaped (base : Str) :
    Shaped (cleanedBase base) ∧ (cleanedBase base).length ≤ 32 := by
  simp only [cleanedBase]
  split_ifs with h
  · decide
  · exact cleanUsername_shaped ((cleanUsername_eq_nil_iff base).not.mp h)

theorem mem_candidates {b c : Str} {rnd : Nat → Fin 10000}
    (h : c ∈ b :: (numberedCandidates b ++ randomCandidates rnd b)) :
    ∃ suffix, c = b ++ suffix ∧ (∀ x ∈ suffix, x.isDigit) ∧ suffix.length ≤ 4 := by
  rcases List.mem_cons.mp h with rfl | h
  · exact ⟨[], (List.append_nil _).symm, by simp, by simp⟩
  rcases List.mem_append.mp h with h | h
  · obtain ⟨i, hi, rfl⟩ := List.mem_map.mp h
    have hi := List.mem_range'_1.mp hi
    exact ⟨_, rfl, Fmt.formatDecimal_isDigit i,
      (Fmt.length_formatDecimal_le (k := 2) (by norm_num; omega)).trans (by norm_num)⟩
  · obtain ⟨t, -, rfl⟩ := List.mem_map.mp h
    exact ⟨_, rfl, Fmt.formatDecimalPad_isDigit _ _,
      (@Fmt.length_formatDecimalPad 3 _ (rnd t).isLt).le⟩

theorem generateAvailableUsername_free_or_fallback (taken : Str → Bool) (rnd : Nat → Fin 10000)
    (base : Str) :
    (generateAvailableUsername taken rnd base ∈ cleanedBase base ::
        (numberedCandidates (cleanedBase base) ++ randomCandidates rnd (cleanedBase base)) ∧
      taken (generateAvailableUsername taken rnd base) = false) ∨
    ((∀ c ∈ cleanedBase base ::
        (numberedCandidates (cleanedBase base) ++ randomCandidates rnd (cleanedBase base)),
        taken c = true) ∧
      generateAvailableUsername taken rnd base = cleanedBase base ++ "_user".toList) := by
  simp only [generateAvailableUsername]
  cases hb : taken (cleanedBase base) with
  | false =>
    simp only [Bool.not_false, if_true]
    exact .inl ⟨List.mem_cons_self _ _, hb⟩
  | true =>
    simp only [Bool.not_true, Bool.false_eq_true, if_false, List.mem_cons, List.mem_append,
      forall_eq_or_imp, hb, true_and]
    cases hn : firstFree taken (numberedCandidates (cleanedBase base)) with
    | some c => exact .inl ⟨.inr (.inl (firstFree_spec hn).1), (firstFree_spec hn).2⟩
    | none =>
      cases hr : firstFree taken (randomCandidates rnd (cleanedBase base)) with
      | some c => exact .inl ⟨.inr (.inr (firstFree_spec hr).1), (firstFree_spec hr).2⟩
      | none =>
        refine .inr ⟨fun c hc => hc.elim (firstFree_eq_none.mp hn c) (firstFree_eq_none.mp hr c),
          rfl⟩

theorem generateAvailableUsername_eq_append (taken : Str → Bool) (rnd : Nat → Fin 10000)
    (base : Str) :
    ∃ suffix, generateAvailableUsername taken rnd base = cleanedBase base ++ suffix ∧
      Shaped (generateAvailableUsername taken rnd base) ∧ suffix.length ≤ 5 ∧
      (taken (cleanedBase base) = true → suffix ≠ []) := by
  have hb := (cleanedBase_shaped base).1
  rcases generateAvailableUsername_free_or_fallback taken rnd base with ⟨hmem, hfree⟩ | ⟨-, heq⟩
  · obtain ⟨suffix, heq, hd, hl⟩ := mem_candidates hmem
    refine ⟨suffix, heq, heq ▸ hb.append fun x hx => isUsernameRune_of_isDigit (hd x hx),
      by omega, fun htaken hnil => ?_⟩
    rw [hnil, List.append_nil] at heq
    rw [heq, htaken] at hfree
    exact Bool.noConfusion hfree
  · exact ⟨_, heq, heq ▸ hb.append (by decide), by decide, fun _ => by decide⟩

/-- A taken base of 32 runes gets a longer name, which `cleanUsername` cuts back to the base. -/
theorem generateAvailableUsername_exceeds_cap (taken : Str → Bool) (rnd : Nat → Fin 10000)
    {base : Str} (hlen : (cleanUsername base).length = 32)
    (htaken : taken (cleanUsername base) = true) :
    cleanUsername (generateAvailableUsername taken rnd base) ≠
        generateAvailableUsername taken rnd base ∧
      cleanUsername (generateAvailableUsername taken rnd base) = cleanUsername base := by
  have hb : cleanedBase base = cleanUsername base := by
    simp only [cleanedBase]
    rw [if_neg (List.ne_nil_of_length_pos (by omega))]
  obtain ⟨suffix, heq, hs, -, hne⟩ := generateAvailableUsername_eq_append taken rnd base
  rw [hb] at heq hne
  have hlong : 32 < (generateAvailableUsername taken rnd base).length := by
    rw [heq, List.length_append, hlen]
    exact Nat.lt_add_of_pos_right (List.length_pos.mpr (hne htaken))
  have hcut : cleanUsername (generateAvailableUsername taken rnd base) = cleanUsername base := by
    rw [cleanUsername_of_shaped hs, heq, List.take_left' hlen]
  refine ⟨fun h => ?_, hcut⟩
  rw [hcut] at h
  exact absurd (congrArg List.length h) (by omega)

/-- A preferred name of 35 kept runes cleans to 32; with those taken, the name gets a 33rd rune. -/
theorem generateAvailableUsername_exceeds_cap_long_name :
    cleanUsername (generateAvailableUsername (· == "alexandriamontgomerywellingtonsm".toList)
        (fun _ => 0) "Alexandria.Montgomery-Wellington.Smith".toList) ≠
        generateAvailableUsername (· == "alexandriamontgomerywellingtonsm".toList) (fun _ => 0)
          "Alexandria.Montgomery-Wellington.Smith".toList ∧
      cleanUsername (generateAvailableUsername (· == "alexandriamontgomerywellingtonsm".toList)
        (fun _ => 0) "Alexandria.Montgomery-Wellington.Smith".toList) =
        cleanUsername "Alexandria.Montgomery-Wellington.Smith".toList :=
  generateAvailableUsername_exceeds_cap _ _ (by decide) (by decide)

example : generateAvailableUsername (· == "alexandriamontgomerywellingtonsm".toList) (fun _ => 0)
    "Alexandria.Montgomery-Wellington.Smith".toList =
      "alexandriamontgomerywellingtonsm1".toList := by
  decide

theorem generateAvailableUsername_shaped (taken : Str → Bool) (rnd : Nat → Fin 10000)
    (base : Str) :
    Shaped (generateAvailableUsername taken rnd base) ∧
      (generateAvailableUsername taken rnd base).length ≤ (cleanedBase base).length + 5 ∧
      cleanUsername (generateAvailableUsername taken rnd base) =
        (generateAvailableUsername taken rnd base).take 32 := by
  obtain ⟨suffix, heq, hs, hl, -⟩ := generateAvailableUsername_eq_append taken rnd base
  refine ⟨hs, ?_, cleanUsername_of_shaped hs⟩
  rw [heq, List.length_append]
  omega

theorem generateAvailableUsername_least_number (taken : Str → Bool) (rnd : Nat → Fin 10000)
    (base : Str) {i : Nat} (hi : 1 ≤ i ∧ i ≤ 999) (hb : taken (cleanedBase base) = true)
    (hfree : taken (cleanedBase base ++ Fmt.formatDecimal i) = false) :
    ∃ j, 1 ≤ j ∧ j ≤ i ∧
      generateAvailableUsername taken rnd base = cleanedBase base ++ Fmt.formatDecimal j ∧
      taken (generateAvailableUsername taken rnd base) = false ∧
      ∀ k, 1 ≤ k → k < j → taken (cleanedBase base ++ Fmt.formatDecimal k) = true := by
  have hsome : firstFree taken (numberedCandidates (cleanedBase base)) ≠ none := fun h =>
    absurd (firstFree_eq_none.mp h _ (List.mem_map_of_mem _ (List.mem_range'_1.mpr
      ⟨hi.1, by omega⟩))) (by simp [hfree])
  obtain ⟨c, hc⟩ := Option.ne_none_iff_exists'.mp hsome
  obtain ⟨j, hj1, hj2, rfl, hpj, hmin⟩ := find?_map_range' hc
  have hgen : generateAvailableUsername taken rnd base =
      cleanedBase base ++ Fmt.formatDecimal j := by
    simp only [generateAvailableUsername, hb, Bool.not_true, Bool.false_eq_true, if_false, hc]
  have hmin' : ∀ k, 1 ≤ k → k < j → taken (cleanedBase base ++ Fmt.formatDecimal k) = true :=
    fun k hk1 hk2 => by simpa using hmin k hk1 hk2
  refine ⟨j, hj1, ?_, hgen, by simpa [hgen] using hpj, hmin'⟩
  by_contra hji
  rw [hmin' i hi.1 (by omega)] at hfree
  exact Bool.noConfusion hfree

/-- With `alex` and `alex1` taken and `alex2` free, a preferred name `Alex` gets `alex2`. -/
theorem generateAvailableUsername_least_number_alex :
    ∃ j, 1 ≤ j ∧ j ≤ 2 ∧
      generateAvailableUsername (fun u => u == "alex".toList || u == "alex1".toList) (fun _ => 0)
          "Alex".toList = cleanedBase "Alex".toList ++ Fmt.formatDecimal j ∧
      (fun u => u == "alex".toList || u == "alex1".toList)
          (generateAvailableUsername (fun u => u == "alex".toList || u == "alex1".toList)
            (fun _ => 0) "Alex".toList) = false ∧
      ∀ k, 1 ≤ k → k < j →
        (fun u => u == "alex".toList || u == "alex1".toList)
          (cleanedBase "Alex".toList ++ Fmt.formatDecimal k) = true :=
  generateAvailableUsername_least_number _ _ _ (i := 2) (by decide) (by decide) (by decide)

theorem deriveUsernameForOAuth_shaped (taken : Str → Bool) (rnd : Nat → Fin 10000)
    (provider preferred email displayName : Str) :
    Shaped (deriveUsernameForOAuth taken rnd provider preferred email displayName) ∧
      (deriveUsernameForOAuth taken rnd provider preferred email displayName).length ≤ 37 := by
  have hgen : ∀ base, Shaped (generateAvailableUsername taken rnd base) ∧
      (generateAvailableUsername taken rnd base).length ≤ 37 := fun base => by
    obtain ⟨suffix, heq, hs, hl, -⟩ := generateAvailableUsername_eq_append taken rnd base
    have := (cleanedBase_shaped base).2
    exact ⟨hs, by rw [heq, List.length_append]; omega⟩
  dsimp only [deriveUsernameForOAuth]
  split_ifs <;> exact hgen _

end Authkit.Core
