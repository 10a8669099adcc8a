import Authkit.Text

namespace Authkit.Oidc

/-- The fields of `RPClient` that `DefaultsFor` and `NewManagerFromMinimal` set. -/
structure RPClient (σ : Type) where
  issuer : Str
  scopes : List Str
  clientID : Str
  clientSecret : Str
  clientSecretProvider : Option σ
  extraAuthParams : List (Str × Str)

structure RPConfig (σ : Type) where
  clientID : Str
  clientSecret : Str
  secretProvider : Option σ
  scopes : List Str

/-- `DefaultsFor(name)`; `none` is the `(RPClient{}, false)` return. -/
def defaultsFor (name : Str) : Option (RPClient σ) :=
  if name = "google".toList then
    some ⟨"https://accounts.google.com".toList, ["openid", "email", "profile"].map String.toList,
      [], [], none, []⟩
  else if name = "apple".toList then
    some ⟨"https://appleid.apple.com".toList, ["openid", "email", "name"].map String.toList,
      [], [], none, [("response_mode".toList, "form_post".toList)]⟩
  else if name = "discord".toList then
    some ⟨"https://discord.com".toList, ["identify", "email"].map String.toList,
      [], [], none, []⟩
  else none

/-- A `range` over a Go map: its keys in the order the runtime picks, which may be any. -/
structure MapOrder where
  order : List Str → List Str
  perm : ∀ keys, (order keys).Perm keys

def ensureOpenID (scopes : List Str) : List Str :=
  if "openid".toList ∈ scopes then scopes else scopes ++ ["openid".toList]

/-- `mergeScopes(base, extra)`: the keys of the set of both, in the order a `range` visits them. -/
def mergeScopes (ord : MapOrder) (base extra : List Str) : List Str :=
  ord.order (base ++ extra).dedup

/-- `NewManagerFromMinimal(min)`: the registry it builds, by provider name. -/
def newManagerFromMinimal (ord : MapOrder) (min : Str → Option (RPConfig σ)) (name : Str) :
    Option (RPClient σ) :=
  (min name).bind fun m => (defaultsFor name : Option (RPClient σ)).map fun base =>
    let base := { base with clientID := m.clientID, clientSecret := m.clientSecret,
                            clientSecretProvider := m.secretProvider }
    let base := if m.scopes.length > 0 then
      { base with scopes := mergeScopes ord base.scopes m.scopes } else base
    { base with scopes := ensureOpenID base.scopes }

theorem defaultsFor_scopes_nodup {name : Str} {base : RPClient σ}
    (h : defaultsFor name = some base) : base.scopes.Nodup := by
  unfold defaultsFor at h
  split_ifs at h <;> cases h <;> dsimp only <;> decide

theorem mem_ensureOpenID (scopes : List Str) (s : Str) :
    s ∈ ensureOpenID scopes ↔ s ∈ scopes ∨ s = "openid".toList := by
  unfold ensureOpenID
  split_ifs with h
  · exact ⟨.inl, fun h' => h'.elim id (· ▸ h)⟩
  · simp

theorem ensureOpenID_nodup {scopes : List Str} (h : scopes.Nodup) :
    (ensureOpenID scopes).Nodup := by
  unfold ensureOpenID
  split_ifs with ho
  · exact h
  · exact h.append (List.nodup_singleton _) (List.disjoint_singleton.mpr ho)

theorem mem_mergeScopes (ord : MapOrder) (base extra : List Str) (s : Str) :
    s ∈ mergeScopes ord base extra ↔ s ∈ base ∨ s ∈ extra := by
  rw [mergeScopes, (ord.perm _).mem_iff, List.mem_dedup, List.mem_append]

theorem mergeScopes_nodup (ord : MapOrder) (base extra : List Str) :
    (mergeScopes ord base extra).Nodup :=
  (ord.perm _).nodup_iff.mpr (List.nodup_dedup _)

theorem newManagerFromMinimal_spec (ord : MapOrder) (min : Str → Option (RPConfig σ))
    (name : Str) :
    match min name, (defaultsFor name : Option (RPClient σ)) with
    | some m, some base => ∃ c, newManagerFromMinimal ord min name = some c ∧
        c.issuer = base.issuer ∧ c.extraAuthParams = base.extraAuthParams ∧
        c.clientID = m.clientID ∧ c.clientSecret = m.clientSecret ∧
        c.clientSecretProvider = m.secretProvider ∧ c.scopes.Nodup ∧
        ∀ s, s ∈ c.scopes ↔ s ∈ base.scopes ∨ s ∈ m.scopes ∨ s = "openid".toList
    | _, _ => newManagerFromMinimal ord min name = none := by
  unfold newManagerFromMinimal
  cases hm : min name with
  | none => rfl
  | some m =>
    cases hd : (defaultsFor name : Option (RPClient σ)) with
    | none => simp [hd]
    | some base =>
      simp only [Option.some_bind, Option.map_some', Option.some.injEq, exists_eq_left']
      split_ifs with hs
      · refine ⟨rfl, rfl, rfl, rfl, rfl, ensureOpenID_nodup (mergeScopes_nodup _ _ _),
          fun s => ?_⟩
        rw [mem_ensureOpenID, mem_mergeScopes, or_assoc]
      · have hnil : m.scopes = [] := List.eq_nil_of_length_eq_zero (by omega)
        refine ⟨rfl, rfl, rfl, rfl, rfl,
          ensureOpenID_nodup (defaultsFor_scopes_nodup hd : base.scopes.Nodup), fun s => ?_⟩
        simp [mem_ensureOpenID, hnil]

/-- Discord, whose defaults the source calls non-OIDC, is asked for `openid` as well. -/
example : (newManagerFromMinimal (σ := Unit) ⟨id, fun _ => List.Perm.refl _⟩
    (fun n => if n = "discord".toList then some ⟨"id".toList, "secret".toList, none, []⟩
      else none)
    "discord".toList).map RPClient.scopes =
      some (["identify", "email", "openid"].map String.toList) := by
  decide

end Authkit.Oidc
