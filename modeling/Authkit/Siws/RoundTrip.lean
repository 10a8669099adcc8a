import Authkit.Siws.Message

namespace Authkit.Siws

/-- The fields `ConstructMessage` writes as one `label ++ value` line each. -/
inductive Field
  | uri | version | chainID | nonce | issuedAt | expirationTime | notBefore | requestID

def Field.label : Field → Str
  | .uri => "URI: ".toList
  | .version => "Version: ".toList
  | .chainID => "Chain ID: ".toList
  | .nonce => "Nonce: ".toList
  | .issuedAt => "Issued At: ".toList
  | .expirationTime => "Expiration Time: ".toList
  | .notBefore => "Not Before: ".toList
  | .requestID => "Request ID: ".toList

/-- What the field loop leaves in field `f`, given the value of the field's line, if any. -/
def Field.update : Field → SignInInput → Option Str → SignInInput
  | .uri, i, o => { i with uri := o.or i.uri }
  | .version, i, o => { i with version := o.or i.version }
  | .chainID, i, o => { i with chainID := o.or i.chainID }
  | .nonce, i, o => { i with nonce := o.getD i.nonce }
  | .issuedAt, i, o => { i with issuedAt := o.getD i.issuedAt }
  | .expirationTime, i, o => { i with expirationTime := o.or i.expirationTime }
  | .notBefore, i, o => { i with notBefore := o.or i.notBefore }
  | .requestID, i, o => { i with requestID := o.or i.requestID }

/-- The fields that open the field block, the labels `startsFields` looks for. -/
def Field.opensBlock : Field → Bool
  | .uri | .version | .chainID | .nonce | .issuedAt => true
  | _ => false

def optionalLines (f : Field) (o : Option Str) : List Str :=
  match present o with
  | some v => [f.label ++ v]
  | none => []

def statementLines (o : Option Str) : List Str :=
  match present o with
  | some s => [] :: s.splitOn '\n'
  | none => []

def fieldLines (input : SignInInput) : List Str :=
  optionalLines .uri input.uri ++ optionalLines .version input.version ++
    optionalLines .chainID input.chainID ++
    (Field.nonce.label ++ input.nonce) :: (Field.issuedAt.label ++ input.issuedAt) ::
    (optionalLines .expirationTime input.expirationTime ++
      optionalLines .notBefore input.notBefore ++ optionalLines .requestID input.requestID ++
      if input.resources = [] then []
      else "Resources:".toList :: input.resources.map ("- ".toList ++ ·))

def messageLines (input : SignInInput) : List Str :=
  (input.domain ++ headerSuffix) :: input.address ::
    (statementLines input.statement ++ [[]] ++ fieldLines input)

def SignInInput.lineFields (input : SignInInput) : List Str :=
  [input.domain, input.address, input.nonce, input.issuedAt] ++ input.uri.toList ++
    input.version.toList ++ input.chainID.toList ++ input.expirationTime.toList ++
    input.notBefore.toList ++ input.requestID.toList ++ input.resources

/-- The input as its message carries it: an empty optional field reads as absent. -/
def SignInInput.normalize (input : SignInInput) : SignInInput :=
  { input with
    statement := present input.statement, uri := present input.uri,
    version := present input.version, chainID := present input.chainID,
    expirationTime := present input.expirationTime, notBefore := present input.notBefore,
    requestID := present input.requestID }

/-- A domain, a trimmed address, a trimmed statement that may span lines, no other newline. -/
structure Wellformed (input : SignInInput) : Prop where
  domain : input.domain ≠ []
  address : input.address ≠ []
  address_trimmed : Trimmed input.address
  statement : ∀ s ∈ present input.statement, Trimmed s
  singleLine : ∀ v ∈ input.lineFields, '\n' ∉ v

/-- No line of the statement, trimmed, starts with a label of the field block. -/
def StatementUnlabelled (input : SignInInput) : Prop :=
  ∀ s ∈ present input.statement, ∀ l ∈ s.splitOn '\n', startsFields (trimSpace l) = false

instance : DecidablePred StatementUnlabelled := fun _ => inferInstanceAs (Decidable (∀ _ ∈ _, _))

theorem present_eq_some {o : Option Str} {s : Str} : present o = some s ↔ o = some s ∧ s ≠ [] := by
  unfold present
  rcases o with _ | v
  · simp
  · by_cases hv : v = []
    · simp only [hv, if_true, reduceCtorEq, false_iff, not_and, not_not]
      exact fun h => (Option.some.inj h).symm
    · simp only [hv, if_false, Option.some.injEq]
      exact ⟨fun h => ⟨h, h ▸ hv⟩, fun h => h.1⟩

theorem splitOn_ne_nil (c : Char) (s : Str) : s.splitOn c ≠ [] := List.splitOnP_ne_nil _ _

theorem flatten_map_cons (c : Char) {ls : List Str} (h : ls ≠ []) :
    (ls.map (c :: ·)).flatten = c :: [c].intercalate ls := by
  obtain ⟨l, ls, rfl⟩ := List.exists_cons_of_ne_nil h
  simp [intercalate_cons]

theorem flatten_map_optionalLines (f : Field) (o : Option Str) :
    ((optionalLines f o).map ('\n' :: ·)).flatten = optionalField f.label o := by
  unfold optionalLines optionalField
  rcases present o with _ | v <;> simp

theorem flatten_map_resourceLines (rs : List Str) :
    ((if rs = [] then [] else "Resources:".toList :: rs.map ("- ".toList ++ ·)).map
      ('\n' :: ·)).flatten =
      if rs = [] then [] else "\nResources:".toList ++ (rs.map ("\n- ".toList ++ ·)).flatten := by
  split
  · rfl
  · simp only [List.map_cons, List.map_map, List.flatten_cons]
    rfl

theorem constructMessage_eq (input : SignInInput) :
    constructMessage input = ['\n'].intercalate (messageLines input) := by
  have hs : ((statementLines input.statement).map ('\n' :: ·)).flatten =
      match present input.statement with
      | some s => '\n' :: '\n' :: s
      | none => [] := by
    unfold statementLines
    rcases present input.statement with _ | s
    · rfl
    · simp [flatten_map_cons _ (splitOn_ne_nil '\n' s), List.intercalate_splitOn]
  rw [messageLines, intercalate_cons, constructMessage]
  simp only [List.map_cons, List.map_append, List.flatten_cons, List.flatten_append, hs,
    fieldLines, flatten_map_optionalLines, flatten_map_resourceLines, List.append_assoc,
    List.cons_append, List.singleton_append]
  rfl

theorem newline_not_mem_optionalLines (f : Field) {o : Option Str} (h : ∀ v ∈ o, '\n' ∉ v) :
    ∀ l ∈ optionalLines f o, '\n' ∉ l := by
  unfold optionalLines
  rcases hp : present o with _ | v
  · simp
  · simp only [List.mem_singleton, forall_eq, List.mem_append, not_or]
    exact ⟨by cases f <;> decide, h v (present_eq_some.mp hp).1⟩

theorem newline_not_mem_messageLines {input : SignInInput}
    (h : ∀ v ∈ input.lineFields, '\n' ∉ v) : ∀ l ∈ messageLines input, '\n' ∉ l := by
  simp only [SignInInput.lineFields, List.forall_mem_append, List.forall_mem_cons,
    Option.mem_toList] at h
  obtain ⟨⟨⟨⟨⟨⟨⟨⟨hd, ha, hn, hi, _⟩, hu⟩, hv⟩, hc⟩, he⟩, hb⟩, hr⟩, hres⟩ := h
  have hlabel : ∀ (f : Field) (v : Str), '\n' ∉ v → '\n' ∉ f.label ++ v := by
    intro f v hv
    rw [List.mem_append, not_or]
    exact ⟨by cases f <;> decide, hv⟩
  simp only [messageLines, fieldLines, List.forall_mem_append, List.forall_mem_cons]
  refine ⟨by simp [hd, show '\n' ∉ headerSuffix by decide], ha, ⟨?_, by simp, by simp⟩,
    ⟨⟨newline_not_mem_optionalLines _ hu, newline_not_mem_optionalLines _ hv⟩,
      newline_not_mem_optionalLines _ hc⟩, hlabel _ _ hn, hlabel _ _ hi,
    ⟨⟨newline_not_mem_optionalLines _ he, newline_not_mem_optionalLines _ hb⟩,
      newline_not_mem_optionalLines _ hr⟩, ?_⟩
  · unfold statementLines
    rcases present input.statement with _ | s
    · simp
    · simpa using fun l hl => not_mem_of_mem_splitOn hl
  · split
    · simp
    · simp only [List.forall_mem_cons, List.forall_mem_map]
      exact ⟨by decide, fun r hr' => by simpa using hres r hr'⟩

theorem headerMatch_append {d : Str} (hd : d ≠ []) (hn : '\n' ∉ d) :
    headerMatch (d ++ headerSuffix) = some d := by
  simp [headerMatch, hd, hn]

theorem startsFields_label {f : Field} (hf : f.opensBlock) (v : Str) :
    startsFields (trimSpace (f.label ++ v)) = true := by
  cases f <;> simp only [Field.opensBlock, Bool.false_eq_true] at hf <;>
    simp (disch := decide) only [startsFields, Field.label, hasPrefix_trimSpace_of_prefix,
      Bool.true_or, Bool.or_true]

theorem fieldsStartFrom_append {xs : List Str} (h : ∀ l ∈ xs, startsFields (trimSpace l) = false)
    (i : Nat) (ys : List Str) : fieldsStartFrom i (xs ++ ys) = fieldsStartFrom (i + xs.length) ys := by
  induction xs generalizing i with
  | nil => rfl
  | cons x xs ih =>
    rw [List.forall_mem_cons] at h
    rw [List.cons_append, fieldsStartFrom, h.1, if_neg Bool.false_ne_true, ih h.2]
    simp [Nat.add_assoc, Nat.add_comm 1]

theorem fieldsStartFrom_fieldLines (input : SignInInput) (i : Nat) :
    fieldsStartFrom i (fieldLines input) = some i := by
  have h : ∀ f : Field, f.opensBlock → ∀ o ys, fieldsStartFrom i (optionalLines f o ++ ys) =
      if (present o).isSome then some i else fieldsStartFrom i ys := by
    intro f hf o ys
    unfold optionalLines
    rcases present o with _ | v <;> simp [fieldsStartFrom, startsFields_label hf]
  simp only [fieldLines, List.append_assoc, h .uri rfl, h .version rfl, h .chainID rfl]
  simp [fieldsStartFrom, startsFields_label (f := .nonce) rfl]

theorem startsFields_statementLines {input : SignInInput} (hs : StatementUnlabelled input) :
    ∀ l ∈ statementLines input.statement ++ [[]], startsFields (trimSpace l) = false := by
  unfold statementLines
  rcases hp : present input.statement with _ | s
  · simp; rfl
  · simp only [List.cons_append, List.forall_mem_cons, List.forall_mem_append]
    exact ⟨rfl, hs s hp, by simp; rfl⟩

theorem foldl_collectStatement_of_ne {acc : List Str} (h : acc ≠ []) (ls : List Str) :
    ls.foldl collectStatement acc = acc ++ ls := by
  induction ls generalizing acc with
  | nil => simp
  | cons l ls ih =>
    rw [List.foldl_cons, collectStatement, if_neg (fun hc => h hc.1), ih (by simp)]
    simp

theorem intercalate_append_nil (c : Char) {ls : List Str} (h : ls ≠ []) :
    [c].intercalate (ls ++ [[]]) = [c].intercalate ls ++ [c] := by
  obtain ⟨l, ls, rfl⟩ := List.exists_cons_of_ne_nil h
  simp [intercalate_cons]

theorem extractStatement_statementLines {o : Option Str} (hs : ∀ s ∈ present o, Trimmed s) :
    extractStatement (statementLines o ++ [[]]) = present o := by
  unfold statementLines
  rcases hp : present o with _ | s
  · rfl
  · obtain ⟨c, t, rfl⟩ := List.exists_cons_of_ne_nil (present_eq_some.mp hp).2
    have ht : Trimmed (c :: t) := hs _ hp
    have hc : isSpace c = false := ht.1 c rfl
    have hcn : (c == '\n') = false := by
      rw [beq_eq_false_iff_ne]; rintro rfl; exact absurd isSpace_newline (by simp [hc])
    obtain ⟨l, ls, hl⟩ : ∃ l ls, (c :: t).splitOn '\n' = (c :: l) :: ls := by
      cases h : t.splitOn '\n' with
      | nil => exact absurd h (splitOn_ne_nil _ _)
      | cons l ls => exact ⟨l, ls, by simp only [List.splitOn, List.splitOnP_cons, hcn] at h ⊢; simp [h]⟩
    have hfold : ([] :: (c :: t).splitOn '\n' ++ [[]]).foldl collectStatement [] =
        (c :: t).splitOn '\n' ++ [[]] := by
      have h0 : collectStatement [] [] = [] := rfl
      have h1 : collectStatement [] (c :: l) = [c :: l] := by
        simp [collectStatement, trimSpace_ne_nil hc]
      rw [hl, List.cons_append, List.foldl_cons, h0, List.cons_append, List.foldl_cons, h1,
        foldl_collectStatement_of_ne (List.cons_ne_nil _ _)]
      rfl
    have hjoin : trimSpace (['\n'].intercalate ((c :: t).splitOn '\n' ++ [[]])) = c :: t := by
      rw [intercalate_append_nil _ (splitOn_ne_nil _ _), List.intercalate_splitOn]
      exact trimSpace_append_spaces ht (by simp [isSpace_newline])
    simp only [extractStatement, hfold, hjoin, List.append_eq_nil, List.cons_ne_nil, and_false,
      if_false]

theorem parseFieldLine_label (f : Field) (i : SignInInput) (rs : List Str) (v : Str) :
    parseFieldLine ⟨i, false, rs⟩ (f.label ++ v) = ⟨f.update i (some v), false, rs⟩ := by
  cases f <;> simp (disch := decide) only [parseFieldLine, Field.label, Field.update,
    hasPrefix_append_of_mismatch, hasPrefix_append_self, trimPrefix_append_self, Bool.false_and,
    Bool.and_false, if_true, if_false, Bool.false_eq_true, Option.or_some, Option.getD_some]

theorem parseFieldLine_resource (i : SignInInput) (acc : List Str) (r : Str) :
    parseFieldLine ⟨i, true, acc⟩ ("- ".toList ++ r) = ⟨i, true, acc ++ [r]⟩ := by
  simp only [parseFieldLine, hasPrefix_append_self, Bool.and_self, if_true, trimPrefix_append_self]

theorem foldl_optionalLines (f : Field) (o : Option Str) (i : SignInInput) (rs : List Str) :
    (optionalLines f o).foldl parseFieldLine ⟨i, false, rs⟩ = ⟨f.update i (present o), false, rs⟩ := by
  unfold optionalLines
  rcases present o with _ | v
  · cases f <;> rfl
  · exact parseFieldLine_label f i rs v

theorem foldl_resources (i : SignInInput) (acc rs : List Str) :
    (rs.map ("- ".toList ++ ·)).foldl parseFieldLine ⟨i, true, acc⟩ = ⟨i, true, acc ++ rs⟩ := by
  induction rs generalizing acc with
  | nil => simp
  | cons r rs ih =>
    simp only [List.map_cons, List.foldl_cons, parseFieldLine_resource, ih, List.append_assoc,
      List.singleton_append]

theorem foldl_resourceLines (i : SignInInput) (rs : List Str) :
    (if rs = [] then [] else "Resources:".toList :: rs.map ("- ".toList ++ ·)).foldl parseFieldLine
      ⟨i, false, []⟩ = if rs = [] then ⟨i, false, []⟩ else ⟨i, true, rs⟩ := by
  split
  · rfl
  · have h : parseFieldLine ⟨i, false, []⟩ "Resources:".toList = ⟨i, true, []⟩ := by
      rw [parseFieldLine, if_neg (by simp), if_pos (by simpa using hasPrefix_append_self _ [])]
    rw [List.foldl_cons, h, foldl_resources, List.nil_append]

theorem foldl_fieldLines (input i : SignInInput) :
    (fieldLines input).foldl parseFieldLine ⟨i, false, []⟩ =
      let j := Field.requestID.update (Field.notBefore.update (Field.expirationTime.update
        (Field.issuedAt.update (Field.nonce.update (Field.chainID.update (Field.version.update
          (Field.uri.update i (present input.uri)) (present input.version)) (present input.chainID))
          (some input.nonce)) (some input.issuedAt)) (present input.expirationTime))
          (present input.notBefore)) (present input.requestID)
      if input.resources = [] then ⟨j, false, []⟩ else ⟨j, true, input.resources⟩ := by
  simp only [fieldLines, List.foldl_append, List.foldl_cons, foldl_optionalLines,
    parseFieldLine_label, foldl_resourceLines]

theorem parseMessage_constructMessage_normalize (input : SignInInput) (hw : Wellformed input)
    (hs : StatementUnlabelled input) : parseMessage (constructMessage input) = .ok input.normalize := by
  have hlines : (constructMessage input).splitOn '\n' = messageLines input := by
    rw [constructMessage_eq]
    exact List.splitOn_intercalate _ _ (newline_not_mem_messageLines hw.singleLine)
      (List.cons_ne_nil _ _)
  have hd : '\n' ∉ input.domain := hw.singleLine _ (by simp [SignInInput.lineFields])
  set block := statementLines input.statement ++ [[]] with hblock
  have hscan : fieldsStartFrom 2 (block ++ fieldLines input) = some (block.length + 2) := by
    rw [fieldsStartFrom_append (startsFields_statementLines hs), fieldsStartFrom_fieldLines,
      Nat.add_comm]
  simp only [parseMessage, hlines, messageLines, ← hblock, List.length_cons, List.getD_cons_zero,
    List.getD_cons_succ, headerMatch_append hw.domain hd, trimSpace_of_trimmed hw.address_trimmed,
    hw.address, List.drop_succ_cons, List.drop_zero, hscan, List.take_succ_cons, List.take_left,
    List.drop_left, if_false, Nat.lt_add_left_iff_pos, Nat.lt_add_one_iff, List.length_append]
  have hstmt : (if 2 ≤ block.length + 1 then extractStatement block else none) =
      present input.statement := by
    rw [if_pos (by simp [hblock])]
    exact extractStatement_statementLines hw.statement
  rw [if_neg (by omega), hstmt, foldl_fieldLines]
  by_cases hr : input.resources = [] <;> simp [hr, Field.update, SignInInput.normalize]

theorem parseMessage_constructMessage (input : SignInInput) (hw : Wellformed input)
    (hs : StatementUnlabelled input) : parseMessage (constructMessage input) = .ok input.normalize :=
  parseMessage_constructMessage_normalize input hw hs

theorem parseMessage_constructMessage_multiline :
    let input : SignInInput :=
      { domain := "example.com".toList, address := "7xKX".toList,
        statement := some "Sign in\n\nto the app".toList, uri := some "".toList,
        chainID := some "mainnet".toList, nonce := "abc12345".toList, issuedAt := "2025".toList,
        resources := ["https://a".toList, []] }
    Wellformed input ∧ StatementUnlabelled input ∧
      parseMessage (constructMessage input) = .ok input.normalize :=
  have hw := ⟨by decide, by decide, by decide, by decide, by decide⟩
  have hs := by decide
  ⟨hw, hs, parseMessage_constructMessage _ hw hs⟩

/-- A statement line that starts like a field is read as that field. -/
theorem parseMessage_constructMessage_not_inverse :
    ¬ ∀ input : SignInInput, Wellformed input →
      parseMessage (constructMessage input) = .ok input.normalize := by
  intro h
  have := h
    { domain := "d".toList, address := "a".toList, statement := some "Nonce: x".toList,
      nonce := "n".toList, issuedAt := "t".toList }
    ⟨by decide, by decide, by decide, by decide, by decide⟩
  revert this
  decide

end Authkit.Siws
