import Authkit.Text

namespace Authkit.Gin

structure LanguageConfig where
  supported : List Str
  default : Str
  queryParam : Str
  cookieName : Str
  deriving DecidableEq, Repr

/-- `cfg.defaulted()`: a nil config, or a blank field, takes `en` and `lang`. -/
def defaulted : Option LanguageConfig → LanguageConfig
  | none => ⟨[], "en".toList, "lang".toList, "lang".toList⟩
  | some c =>
    { c with
      default := if trimSpace c.default = [] then "en".toList else c.default
      queryParam := if trimSpace c.queryParam = [] then "lang".toList else c.queryParam
      cookieName := if trimSpace c.cookieName = [] then "lang".toList else c.cookieName }

def simpleLang (s : Str) : Bool := s.length = 2 && s.all fun c => 'a' ≤ c && c ≤ 'z'

/-- `normalizeLangCode(s)`: lower-cased, trimmed, cut at `-` or `_`, kept if two letters `a-z`. -/
def normalizeLangCode (s : Str) : Str :=
  let s := trimSpace (s.map toLower)
  if s = [] then []
  else
    let s := s.takeWhile fun c => c ≠ '-' ∧ c ≠ '_'
    if simpleLang s then s else []

/-- `supportedSet(supported)`: `nil` for an empty list, else the set of its normalised codes. -/
def supportedSet (supported : List Str) : Option (List Str) :=
  if supported = [] then none else some ((supported.map normalizeLangCode).filter (· ≠ []))

def allowed (supported : Option (List Str)) (lang : Str) : Bool :=
  match supported with
  | none => true
  | some m => lang ∈ m

/-- The loop of `pickFromAcceptLanguage`: the first range that normalises to an allowed code. -/
def pickParts (supported : Option (List Str)) : List Str → Str
  | [] => []
  | part :: parts =>
    let part := trimSpace part
    if part = [] then pickParts supported parts
    else
      let lang := normalizeLangCode (part.takeWhile (· ≠ ';'))
      if lang = [] then pickParts supported parts
      else if allowed supported lang then lang
      else pickParts supported parts

def pickFromAcceptLanguage (header : Str) (supported : Option (List Str)) : Str :=
  let header := trimSpace header
  if header = [] then [] else pickParts supported (header.splitOn ',')

def byteLen (s : Str) : Nat := (s.map Char.utf8Size).sum

/-- `pickFromPathPrefix`: the first segment, if the path without leading slashes has three bytes. -/
def pickFromPathPrefix (path : Str) (supported : Option (List Str)) : Str :=
  let path := path.dropWhile (· = '/')
  if byteLen path < 3 then []
  else
    let lang := normalizeLangCode (path.takeWhile (· ≠ '/'))
    if lang = [] then []
    else if allowed supported lang then lang
    else []

/-- What `resolveRequestLanguage` reads: query, path, cookie (an error when absent) and header. -/
structure Request where
  query : Str → Str
  path : Str
  cookie : Str → Option Str
  acceptLanguage : Str

/-- `resolveRequestLanguage`: query, path, cookie, header, default, the first allowed; else `en`. -/
def resolveRequestLanguage (req : Request) (cfg : LanguageConfig) : Str :=
  let supported := supportedSet cfg.supported
  let qp := normalizeLangCode (req.query cfg.queryParam)
  if qp ≠ [] ∧ allowed supported qp then qp
  else
    let lp := pickFromPathPrefix req.path supported
    if lp ≠ [] then lp
    else
      let ck := if cfg.cookieName = [] then []
        else ((req.cookie cfg.cookieName).map normalizeLangCode).getD []
      if ck ≠ [] ∧ allowed supported ck then ck
      else
        let al := pickFromAcceptLanguage req.acceptLanguage supported
        if al ≠ [] then al
        else
          let def_ := normalizeLangCode cfg.default
          if def_ ≠ [] ∧ allowed supported def_ then def_ else "en".toList

abbrev LangContext := Option Str

def withLanguage (_ : LangContext) (language : Str) : LangContext := some language

/-- `LanguageFromContext(ctx)`: the attached language, present only if it is not empty. -/
def languageFromContext : LangContext → Str × Bool
  | some s => (s, s ≠ [])
  | none => ([], false)

def languageMiddleware (cfg : Option LanguageConfig) (req : Request) (ctx : LangContext) :
    LangContext :=
  withLanguage ctx (resolveRequestLanguage req (defaulted cfg))

theorem char_le_iff {a b : Char} : a ≤ b ↔ a.toNat ≤ b.toNat := Iff.rfl

theorem lower_letter {c : Char} (h : 'a' ≤ c ∧ c ≤ 'z') :
    toLower c = c ∧ isSpace c = false ∧ c ≠ '-' ∧ c ≠ '_' := by
  have hn : 97 ≤ c.toNat ∧ c.toNat ≤ 122 := h
  refine ⟨?_, ?_, fun e => by subst e; simp at hn, fun e => by subst e; simp at hn⟩
  · rw [toLower, if_neg (by rw [char_le_iff, char_le_iff]; simp; omega), if_neg (by omega),
      if_neg (by omega)]
  · simp [isSpace]
    omega

theorem normalizeLangCode_of_simpleLang {s : Str} (h : simpleLang s = true) :
    normalizeLangCode s = s := by
  have hs := h
  simp only [simpleLang, Bool.and_eq_true, decide_eq_true_eq, List.all_eq_true] at hs
  have letter := fun c (hc : c ∈ s) => lower_letter (hs.2 c hc)
  have hne : s ≠ [] := List.ne_nil_of_length_pos (by omega)
  have hmap : s.map toLower = s :=
    (List.map_congr_left fun c hc => (letter c hc).1).trans (List.map_id s)
  have htrim : trimSpace s = s := trimSpace_of_trimmed
    ⟨fun c hc => (letter c (List.mem_of_mem_head? hc)).2.1,
      fun c hc => (letter c (List.mem_of_mem_getLast? hc)).2.1⟩
  have htake : s.takeWhile (fun c => c ≠ '-' ∧ c ≠ '_') = s :=
    List.takeWhile_eq_self_iff.mpr fun c hc => by simpa using (letter c hc).2.2
  simp only [normalizeLangCode, hmap, htrim, hne, if_false, htake, h, if_true]

theorem normalizeLangCode_cases (s : Str) :
    normalizeLangCode s = [] ∨ simpleLang (normalizeLangCode s) = true := by
  unfold normalizeLangCode
  dsimp only
  split_ifs with h1 h2
  · exact .inl rfl
  · exact .inr h2
  · exact .inl rfl

/-- What a source yields: `""`, or a code in normal form that the supported set allows. -/
def Yields (supported : Option (List Str)) (lang : Str) : Prop :=
  lang = [] ∨ simpleLang lang = true ∧ allowed supported lang = true

theorem yields_of_normalizeLangCode (supported : Option (List Str)) {s : Str}
    (h : allowed supported (normalizeLangCode s) = true) : Yields supported (normalizeLangCode s) :=
  (normalizeLangCode_cases s).imp id fun hs => ⟨hs, h⟩

theorem pickParts_yields (supported : Option (List Str)) (parts : List Str) :
    Yields supported (pickParts supported parts) := by
  induction parts with
  | nil => exact .inl rfl
  | cons part parts ih =>
    simp only [pickParts]
    split_ifs with h1 h2 h3
    · exact ih
    · exact ih
    · exact yields_of_normalizeLangCode supported h3
    · exact ih

theorem pickFromAcceptLanguage_yields (header : Str) (supported : Option (List Str)) :
    Yields supported (pickFromAcceptLanguage header supported) := by
  unfold pickFromAcceptLanguage
  dsimp only
  split_ifs
  · exact .inl rfl
  · exact pickParts_yields supported _

theorem pickFromPathPrefix_yields (path : Str) (supported : Option (List Str)) :
    Yields supported (pickFromPathPrefix path supported) := by
  unfold pickFromPathPrefix
  dsimp only
  split_ifs with h1 h2 h3
  · exact .inl rfl
  · exact .inl rfl
  · exact yields_of_normalizeLangCode supported h3
  · exact .inl rfl

theorem resolveRequestLanguage_spec (req : Request) (cfg : LanguageConfig) :
    simpleLang (resolveRequestLanguage req cfg) = true ∧
      (allowed (supportedSet cfg.supported) (resolveRequestLanguage req cfg) = true ∨
        resolveRequestLanguage req cfg = "en".toList) := by
  have hq := normalizeLangCode_cases (req.query cfg.queryParam)
  have hl := pickFromPathPrefix_yields req.path (supportedSet cfg.supported)
  have hc : (if cfg.cookieName = [] then [] else
      ((req.cookie cfg.cookieName).map normalizeLangCode).getD []) = [] ∨
      simpleLang (if cfg.cookieName = [] then [] else
        ((req.cookie cfg.cookieName).map normalizeLangCode).getD []) = true := by
    split_ifs
    · exact .inl rfl
    · cases req.cookie cfg.cookieName with
      | none => exact .inl rfl
      | some cv => exact normalizeLangCode_cases cv
  have ha := pickFromAcceptLanguage_yields req.acceptLanguage (supportedSet cfg.supported)
  have hd := normalizeLangCode_cases cfg.default
  unfold resolveRequestLanguage
  dsimp only
  generalize normalizeLangCode (req.query cfg.queryParam) = qp at hq ⊢
  generalize pickFromPathPrefix req.path (supportedSet cfg.supported) = lp at hl ⊢
  generalize (if cfg.cookieName = [] then [] else
    ((req.cookie cfg.cookieName).map normalizeLangCode).getD []) = ck at hc ⊢
  generalize pickFromAcceptLanguage req.acceptLanguage (supportedSet cfg.supported) = al at ha ⊢
  generalize normalizeLangCode cfg.default = df at hd ⊢
  split_ifs with h1 h2 h3 h4 h5
  · exact ⟨hq.resolve_left h1.1, .inl h1.2⟩
  · exact ⟨(hl.resolve_left h2).1, .inl (hl.resolve_left h2).2⟩
  · exact ⟨hc.resolve_left h3.1, .inl h3.2⟩
  · exact ⟨(ha.resolve_left h4).1, .inl (ha.resolve_left h4).2⟩
  · exact ⟨hd.resolve_left h5.1, .inl h5.2⟩
  · exact ⟨rfl, .inr rfl⟩

/-- A French query, path, cookie and first header entry are passed over for the header's `es`. -/
example :
    resolveRequestLanguage ⟨fun k => if k = "lang".toList then "fr".toList else [],
        "/fr/auth/register".toList, fun k => if k = "lang".toList then some "fr".toList else none,
        "fr-FR,fr;q=0.9,es;q=0.8".toList⟩
      ⟨["en".toList, "es".toList], "en".toList, "lang".toList, "lang".toList⟩ = "es".toList ∧
    resolveRequestLanguage ⟨fun _ => [], "/".toList, fun _ => none, []⟩
      (defaulted (some ⟨["de".toList], [], [], []⟩)) = "en".toList := by
  decide

theorem languageMiddleware_attaches (cfg : Option LanguageConfig) (req : Request)
    (ctx : LangContext) :
    ∃ lang, languageFromContext (languageMiddleware cfg req ctx) = (lang, true) ∧
      simpleLang lang = true ∧ normalizeLangCode lang = lang ∧
      (allowed (supportedSet (defaulted cfg).supported) lang = true ∨ lang = "en".toList) := by
  obtain ⟨hs, ha⟩ := resolveRequestLanguage_spec req (defaulted cfg)
  have hne : resolveRequestLanguage req (defaulted cfg) ≠ [] := fun h => by
    rw [h] at hs
    exact absurd hs (by decide)
  exact ⟨_, by simp [languageMiddleware, withLanguage, languageFromContext, hne], hs,
    normalizeLangCode_of_simpleLang hs, ha⟩

structure UserContext where
  userID : Str
  email : Str
  discordUsername : Option Str
  roles : List Str
  entitlements : List Str

structure GinClaims where
  userID : Str
  email : Str
  roles : List Str
  entitlements : List Str

/-- What `CurrentUser` reads from the gin context, the discord username when it is a string. -/
structure AuthContext where
  userContext : Option UserContext
  claims : Option GinClaims
  discordUsername : Option Str
  lang : LangContext

structure UserView where
  userID : Str
  email : Str
  username : Option Str
  discordUsername : Option Str
  language : Str
  roles : List Str
  entitlements : List Str
  source : Str

def requestLanguage (lang : LangContext) : Str :=
  match languageFromContext lang with
  | (v, true) => v
  | (_, false) => "en".toList

def claimsView (c : AuthContext) : UserView × Bool :=
  match c.claims with
  | some cl =>
    if cl.userID ≠ [] then
      (⟨cl.userID, cl.email, none, c.discordUsername.filter (· ≠ []), requestLanguage c.lang,
        cl.roles, cl.entitlements, "claims".toList⟩, true)
    else (⟨[], [], none, none, requestLanguage c.lang, [], [], "none".toList⟩, false)
  | none => (⟨[], [], none, none, requestLanguage c.lang, [], [], "none".toList⟩, false)

/-- `CurrentUser(c)`: the enriched user context first, then the JWT claims, then nobody. -/
def currentUser (c : AuthContext) : UserView × Bool :=
  match c.userContext with
  | some uc =>
    if uc.userID ≠ [] then
      (⟨uc.userID, uc.email, none, uc.discordUsername, requestLanguage c.lang, uc.roles,
        uc.entitlements, "userctx".toList⟩, true)
    else claimsView c
  | none => claimsView c

end Authkit.Gin
