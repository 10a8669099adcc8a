import Authkit.Text

namespace Authkit.Oidc

structure DiscoveryDoc where
  issuer : Str
  authorizationEndpoint : Str
  tokenEndpoint : Str
  jwksUri : Str
  deriving DecidableEq, Repr

/-- The HTTP round trip to the discovery URL: status code, status line, and the decoded body. -/
structure Response where
  statusCode : Nat
  status : Str
  body : Except Str DiscoveryDoc
  deriving DecidableEq, Repr

/-- The fields of `oauth2.Config` that `NewRelyingPartyOIDC` sets. -/
structure OAuthConfig where
  clientID : Str
  clientSecret : Str
  redirectURL : Str
  scopes : List Str
  authURL : Str
  tokenURL : Str
  deriving DecidableEq, Repr

structure RelyingParty where
  issuer : Str
  clientID : Str
  jwksURL : Str
  oauthConfig : OAuthConfig
  deriving DecidableEq, Repr

def discoveryURL (issuer : Str) : Str :=
  trimRight issuer '/' ++ "/.well-known/openid-configuration".toList

/-- `discoverOIDC(ctx, issuer)`; `fetch` is the request, the round trip and the decoding. -/
def discoverOIDC (fetch : Str → Except Str Response) (issuer : Str) : Except Str DiscoveryDoc := do
  let resp ← fetch (discoveryURL issuer)
  if resp.statusCode < 200 ∨ 300 ≤ resp.statusCode then
    throw ("oidc: discovery failed: ".toList ++ resp.status)
  let doc ← resp.body
  let discoveredIssuer := trimRight doc.issuer '/'
  if discoveredIssuer ≠ [] ∧ discoveredIssuer ≠ issuer then
    throw ("oidc: issuer mismatch: ".toList ++ doc.issuer)
  if doc.authorizationEndpoint = [] ∨ doc.tokenEndpoint = [] ∨ doc.jwksUri = [] then
    throw "oidc: discovery missing endpoints".toList
  return doc

def newRelyingPartyOIDC (fetch : Str → Except Str Response) (issuer clientID clientSecret
    redirectURI : Str) (scopes : List Str) : Except Str RelyingParty := do
  let trimmedIssuer := trimRight issuer '/'
  if trimmedIssuer = [] then
    throw "oidc: issuer is empty".toList
  let doc ← discoverOIDC fetch trimmedIssuer
  let effectiveIssuer := if doc.issuer = [] then issuer else doc.issuer
  return {
    issuer := effectiveIssuer
    clientID := clientID
    jwksURL := doc.jwksUri
    oauthConfig := {
      clientID := clientID
      clientSecret := clientSecret
      redirectURL := redirectURI
      scopes := scopes
      authURL := doc.authorizationEndpoint
      tokenURL := doc.tokenEndpoint } }

/-- What a document must satisfy for discovery of `issuer` to accept it. -/
structure Accepted (issuer : Str) (doc : DiscoveryDoc) : Prop where
  issuer_matches : trimRight doc.issuer '/' = [] ∨ trimRight doc.issuer '/' = issuer
  authorization : doc.authorizationEndpoint ≠ []
  token : doc.tokenEndpoint ≠ []
  jwks : doc.jwksUri ≠ []

theorem accepted_iff {issuer : Str} {doc : DiscoveryDoc} :
    Accepted issuer doc ↔ (trimRight doc.issuer '/' = [] ∨ trimRight doc.issuer '/' = issuer) ∧
      doc.authorizationEndpoint ≠ [] ∧ doc.tokenEndpoint ≠ [] ∧ doc.jwksUri ≠ [] :=
  ⟨fun ⟨h₁, h₂, h₃, h₄⟩ => ⟨h₁, h₂, h₃, h₄⟩, fun ⟨h₁, h₂, h₃, h₄⟩ => ⟨h₁, h₂, h₃, h₄⟩⟩

theorem discoverOIDC_eq_ok {fetch : Str → Except Str Response} {issuer : Str}
    {doc : DiscoveryDoc} :
    discoverOIDC fetch issuer = .ok doc ↔ ∃ resp, fetch (discoveryURL issuer) = .ok resp ∧
      200 ≤ resp.statusCode ∧ resp.statusCode < 300 ∧ resp.body = .ok doc ∧
      Accepted issuer doc := by
  unfold discoverOIDC
  rcases hf : fetch (discoveryURL issuer) with e | resp
  · simp [bind, Except.bind]
  rcases hb : resp.body with e | d
  · simp [bind, Except.bind, hb, pure, Except.pure]
    split <;> simp_all
  simp only [bind, Except.bind, hb, pure, Except.pure, throw, throwThe, MonadExceptOf.throw, hf,
    Except.ok.injEq, exists_eq_left']
  split_ifs with hs hi he
  · exact iff_of_false id fun h => by omega
  · exact iff_of_false id fun ⟨_, _, hd, ha⟩ => by
      subst hd
      exact ha.issuer_matches.elim hi.1 hi.2
  · exact iff_of_false id fun ⟨_, _, hd, ha⟩ => by
      subst hd
      exact he.elim ha.authorization (·.elim ha.token ha.jwks)
  · rw [Except.ok.injEq]
    refine ⟨fun hd => ⟨by omega, by omega, hd, hd ▸ ⟨?_, ?_, ?_, ?_⟩⟩, fun h => h.2.2.1⟩ <;> tauto

/-- The relying party `NewRelyingPartyOIDC` builds from a discovered document. -/
def relyingPartyOf (issuer clientID clientSecret redirectURI : Str) (scopes : List Str)
    (doc : DiscoveryDoc) : RelyingParty :=
  ⟨if doc.issuer = [] then issuer else doc.issuer, clientID, doc.jwksUri,
    ⟨clientID, clientSecret, redirectURI, scopes, doc.authorizationEndpoint, doc.tokenEndpoint⟩⟩

section
variable {fetch : Str → Except Str Response} {issuer clientID clientSecret redirectURI : Str}
  {scopes : List Str}

theorem newRelyingPartyOIDC_eq_ok {rp : RelyingParty} :
    newRelyingPartyOIDC fetch issuer clientID clientSecret redirectURI scopes = .ok rp ↔
      trimRight issuer '/' ≠ [] ∧ ∃ doc, discoverOIDC fetch (trimRight issuer '/') = .ok doc ∧
        relyingPartyOf issuer clientID clientSecret redirectURI scopes doc = rp := by
  unfold newRelyingPartyOIDC
  by_cases hi : trimRight issuer '/' = []
  · simp [hi, throw, throwThe, MonadExceptOf.throw, bind, Except.bind]
  · rcases hd : discoverOIDC fetch (trimRight issuer '/') with e | doc
    · simp [hi, hd, bind, Except.bind, pure, Except.pure]
    · simp [hi, hd, bind, Except.bind, pure, Except.pure, relyingPartyOf]

theorem exists_doc_of_newRelyingPartyOIDC_eq_ok {rp : RelyingParty}
    (h : newRelyingPartyOIDC fetch issuer clientID clientSecret redirectURI scopes = .ok rp) :
    ∃ resp doc, fetch (discoveryURL (trimRight issuer '/')) = .ok resp ∧ resp.body = .ok doc ∧
      Accepted (trimRight issuer '/') doc ∧
      relyingPartyOf issuer clientID clientSecret redirectURI scopes doc = rp := by
  obtain ⟨_, doc, hd, rfl⟩ := newRelyingPartyOIDC_eq_ok.mp h
  obtain ⟨resp, hf, _, _, hb, ha⟩ := discoverOIDC_eq_ok.mp hd
  exact ⟨resp, doc, hf, hb, ha, rfl⟩

theorem newRelyingPartyOIDC_endpoints {rp : RelyingParty}
    (h : newRelyingPartyOIDC fetch issuer clientID clientSecret redirectURI scopes = .ok rp) :
    ∃ resp doc, fetch (discoveryURL (trimRight issuer '/')) = .ok resp ∧ resp.body = .ok doc ∧
      rp.oauthConfig.authURL = doc.authorizationEndpoint ∧ doc.authorizationEndpoint ≠ [] ∧
      rp.oauthConfig.tokenURL = doc.tokenEndpoint ∧ doc.tokenEndpoint ≠ [] ∧
      rp.jwksURL = doc.jwksUri ∧ doc.jwksUri ≠ [] ∧
      (trimRight rp.issuer '/' = trimRight issuer '/' ∨
        rp.issuer = doc.issuer ∧ trimRight doc.issuer '/' = []) := by
  obtain ⟨resp, doc, hf, hb, ha, rfl⟩ := exists_doc_of_newRelyingPartyOIDC_eq_ok h
  refine ⟨resp, doc, hf, hb, rfl, ha.authorization, rfl, ha.token, rfl, ha.jwks, ?_⟩
  by_cases he : doc.issuer = []
  · simp [relyingPartyOf, he]
  · have hi : (relyingPartyOf issuer clientID clientSecret redirectURI scopes doc).issuer =
        doc.issuer := if_neg he
    rw [hi]
    exact ha.issuer_matches.symm.imp id (⟨rfl, ·⟩)

theorem newRelyingPartyOIDC_endpoints_trailing_slash :
    let doc : DiscoveryDoc := ⟨"https://idp.example/".toList, "https://idp.example/authorize".toList,
      "https://idp.example/token".toList, "https://idp.example/jwks".toList⟩
    let fetch : Str → Except Str Response := fun _ => .ok ⟨200, "200 OK".toList, .ok doc⟩
    let rp : RelyingParty := ⟨doc.issuer, "app".toList, doc.jwksUri, ⟨"app".toList,
      "secret".toList, "https://app.example/callback".toList, [], doc.authorizationEndpoint,
      doc.tokenEndpoint⟩⟩
    newRelyingPartyOIDC fetch "https://idp.example".toList "app".toList "secret".toList
        "https://app.example/callback".toList [] = .ok rp ∧
    ∃ resp doc, fetch (discoveryURL (trimRight "https://idp.example".toList '/')) = .ok resp ∧
      resp.body = .ok doc ∧
      rp.oauthConfig.authURL = doc.authorizationEndpoint ∧ doc.authorizationEndpoint ≠ [] ∧
      rp.oauthConfig.tokenURL = doc.tokenEndpoint ∧ doc.tokenEndpoint ≠ [] ∧
      rp.jwksURL = doc.jwksUri ∧ doc.jwksUri ≠ [] ∧
      (trimRight rp.issuer '/' = trimRight "https://idp.example".toList '/' ∨
        rp.issuer = doc.issuer ∧ trimRight doc.issuer '/' = []) :=
  have h : newRelyingPartyOIDC _ _ _ _ _ _ = .ok _ := by decide
  ⟨h, newRelyingPartyOIDC_endpoints h⟩

/-- An issuer of slashes only trims to empty, so the mismatch check lets it through. -/
theorem newRelyingPartyOIDC_slash_issuer (resp : Response) (doc : DiscoveryDoc)
    (hiss : trimRight issuer '/' ≠ [])
    (hf : fetch (discoveryURL (trimRight issuer '/')) = .ok resp)
    (hs : 200 ≤ resp.statusCode ∧ resp.statusCode < 300) (hb : resp.body = .ok doc)
    (hslash : doc.issuer ≠ [] ∧ trimRight doc.issuer '/' = [])
    (hend : doc.authorizationEndpoint ≠ [] ∧ doc.tokenEndpoint ≠ [] ∧ doc.jwksUri ≠ []) :
    ∃ rp, newRelyingPartyOIDC fetch issuer clientID clientSecret redirectURI scopes = .ok rp ∧
      rp.issuer = doc.issuer ∧ trimRight rp.issuer '/' ≠ trimRight issuer '/' := by
  have hd : discoverOIDC fetch (trimRight issuer '/') = .ok doc :=
    discoverOIDC_eq_ok.mpr ⟨resp, hf, hs.1, hs.2, hb, ⟨.inl hslash.2, hend.1, hend.2.1, hend.2.2⟩⟩
  refine ⟨_, newRelyingPartyOIDC_eq_ok.mpr ⟨hiss, doc, hd, rfl⟩, if_neg hslash.1, ?_⟩
  rw [relyingPartyOf, if_neg hslash.1, hslash.2]
  exact hiss.symm

end

theorem newRelyingPartyOIDC_slash_issuer_idp :
    let issuer := "https://idp.example".toList
    let doc : DiscoveryDoc := ⟨"/".toList, "https://idp.example/authorize".toList,
      "https://idp.example/token".toList, "https://idp.example/jwks".toList⟩
    let resp : Response := ⟨200, "200 OK".toList, .ok doc⟩
    let fetch : Str → Except Str Response := fun _ => .ok resp
    (trimRight issuer '/' ≠ [] ∧ fetch (discoveryURL (trimRight issuer '/')) = .ok resp ∧
      (200 ≤ resp.statusCode ∧ resp.statusCode < 300) ∧ resp.body = .ok doc ∧
      (doc.issuer ≠ [] ∧ trimRight doc.issuer '/' = []) ∧
      (doc.authorizationEndpoint ≠ [] ∧ doc.tokenEndpoint ≠ [] ∧ doc.jwksUri ≠ [])) ∧
    ∃ rp, newRelyingPartyOIDC fetch issuer "app".toList "secret".toList
        "https://app.example/callback".toList [] = .ok rp ∧
      rp.issuer = doc.issuer ∧ trimRight rp.issuer '/' ≠ trimRight issuer '/' :=
  ⟨⟨by decide, rfl, by decide, rfl, by decide, by decide⟩,
    newRelyingPartyOIDC_slash_issuer _ _ (by decide) rfl (by decide) rfl (by decide) (by decide)⟩

end Authkit.Oidc
