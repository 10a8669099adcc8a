import Authkit.Text

namespace Authkit.Jwt

/-- A decoded `map[string]string`: its entries in the order a `range` visits them, one per key. -/
structure KeyMap where
  entries : List (Str × Str)
  nodup : (entries.map Prod.fst).Nodup

structure KeyData where
  activeKeyID : Str
  activePrivateKeyPEM : Str
  publicKeys : KeyMap

/-- What the loaders take from `encoding/pem`, `crypto/x509`, `golang-jwt` and `encoding/json`. -/
structure Parsers (σ π : Type) where
  /-- `pem.Decode` and the PKCS#1 or PKCS#8 parse of `NewRSASignerFromPEM`. -/
  parsePrivateKey : Str → Except Str σ
  /-- `&key.PublicKey`: the public half of a private key. -/
  publicKey : σ → π
  /-- `jwt.ParseRSAPublicKeyFromPEM`. -/
  parsePublicKey : Str → Except Str π
  /-- `json.Unmarshal` of `PUBLIC_KEYS`. -/
  unmarshalKeyMap : Str → Except Str KeyMap
  /-- `json.Unmarshal` of keys.json. -/
  unmarshalKeyData : Str → Except Str KeyData

def KeyMap.empty : KeyMap := ⟨[], List.nodup_nil⟩

structure RSASigner (σ : Type) where
  key : σ
  kid : Str

/-- `StaticKeySource`: the active signer and the published public keys by kid. -/
structure StaticKeySource (σ π : Type) where
  active : RSASigner σ
  pubs : Str → Option π

/-- `os.ReadFile` of keys.json: missing, failed with a message, or its content. -/
inductive ReadResult
  | notExist
  | error (msg : Str)
  | ok (data : Str)

structure FileSystem where
  /-- `os.IsNotExist` of `os.Stat(dir)`. -/
  statNotExist : Str → Bool
  /-- `os.ReadFile(filepath.Join(dir, "keys.json"))`. -/
  readKeysJson : Str → ReadResult

def defaultAuthKeysPath : Str := "/vault/auth".toList

section
variable {σ π : Type} (P : Parsers σ π)

def newRSASignerFromPEM (kid pemBytes : Str) : Except Str (RSASigner σ) :=
  if pemBytes = [] then .error "empty RSA private key pem".toList
  else (P.parsePrivateKey pemBytes).map (⟨·, kid⟩)

/-- The map both loaders start from: the active key's public half under its kid. -/
def activeKeys (signer : RSASigner σ) : Str → Option π :=
  Function.update (fun _ => none) signer.kid (some (P.publicKey signer.key))

/-- One pass of the loop over the listed keys: a key that parses is stored under its kid. -/
def publishKey (publicKeys : Str → Option π) (e : Str × Str) : Str → Option π :=
  match P.parsePublicKey e.2 with
  | .ok pub => Function.update publicKeys e.1 (some pub)
  | .error _ => publicKeys

/-- `tryLoadFromEnv()` in the environment `getenv`; `none` is the `(nil, nil)` return. -/
def tryLoadFromEnv (getenv : Str → Str) : Except Str (Option (StaticKeySource σ π)) := do
  let activeKeyID := trimSpace (getenv "ACTIVE_KEY_ID".toList)
  let activePrivateKeyPEM := trimSpace (getenv "ACTIVE_PRIVATE_KEY_PEM".toList)
  if activeKeyID = [] ∧ activePrivateKeyPEM = [] then
    return none
  if activeKeyID = [] then
    throw "ACTIVE_PRIVATE_KEY_PEM is set but ACTIVE_KEY_ID is missing".toList
  if activePrivateKeyPEM = [] then
    throw "ACTIVE_KEY_ID is set but ACTIVE_PRIVATE_KEY_PEM is missing".toList
  let signer ← (newRSASignerFromPEM P activeKeyID activePrivateKeyPEM).mapError
    ("failed to parse ACTIVE_PRIVATE_KEY_PEM: ".toList ++ ·)
  let publicKeysJSON := trimSpace (getenv "PUBLIC_KEYS".toList)
  let publicKeys ← if publicKeysJSON ≠ [] then do
      let pubKeyMap ← (P.unmarshalKeyMap publicKeysJSON).mapError
        ("failed to parse PUBLIC_KEYS JSON: ".toList ++ ·)
      pure (pubKeyMap.entries.foldl (publishKey P) (activeKeys P signer))
    else pure (activeKeys P signer)
  return some ⟨signer, publicKeys⟩

def tryLoadFromFilesystem (fs : FileSystem) (keysPath : Str) :
    Except Str (Option (StaticKeySource σ π)) := do
  let keysPath := if keysPath = [] then defaultAuthKeysPath else keysPath
  if fs.statNotExist keysPath then
    return none
  match fs.readKeysJson keysPath with
  | .notExist => return none
  | .error e => throw ("failed to read keys.json: ".toList ++ e)
  | .ok data =>
    let keyData ← (P.unmarshalKeyData data).mapError ("failed to parse keys.json: ".toList ++ ·)
    if keyData.activeKeyID = [] then
      throw "keys.json missing active_key_id".toList
    if keyData.activePrivateKeyPEM = [] then
      throw "keys.json missing active_private_key_pem".toList
    let signer ← (newRSASignerFromPEM P keyData.activeKeyID keyData.activePrivateKeyPEM).mapError
      ("failed to parse private key: ".toList ++ ·)
    return some ⟨signer, keyData.publicKeys.entries.foldl (publishKey P) (activeKeys P signer)⟩

/-- The key published under `k` after the loop over `m`: the listed key if it parses. -/
def listedKey (m : List (Str × Str)) (publicKeys : Str → Option π) (k : Str) : Option π :=
  ((m.lookup k).bind fun s => (P.parsePublicKey s).toOption).or (publicKeys k)

theorem foldl_publishKey (m : List (Str × Str)) (hm : (m.map Prod.fst).Nodup) :
    ∀ publicKeys : Str → Option π, ∀ k,
      m.foldl (publishKey P) publicKeys k = listedKey P m publicKeys k := by
  induction m with
  | nil => intros; rfl
  | cons e m ih =>
    obtain ⟨kid, s⟩ := e
    obtain ⟨hkid, hm⟩ := List.nodup_cons.mp hm
    intro publicKeys k
    rw [List.foldl_cons, ih hm]
    by_cases hk : k = kid
    · subst hk
      have hnone : m.lookup k = none := List.lookup_eq_none_iff.mpr fun p hp =>
        bne_iff_ne.mpr fun h => hkid (List.mem_map.mpr ⟨p, hp, h.symm⟩)
      simp only [listedKey, hnone, List.lookup_cons_self, publishKey]
      cases hp : P.parsePublicKey s <;> simp [hp, Except.toOption]
    · have hbeq : (k == kid) = false := by simpa using hk
      simp only [listedKey, List.lookup_cons, hbeq, publishKey]
      cases P.parsePublicKey s <;> simp [Function.update_noteq hk]

theorem lookup_eq_of_mem {m : List (Str × Str)} (hm : (m.map Prod.fst).Nodup) {k s : Str}
    (h : (k, s) ∈ m) : m.lookup k = some s := by
  induction m with
  | nil => cases h
  | cons e m ih =>
    obtain ⟨kid, s'⟩ := e
    obtain ⟨hkid, hm⟩ := List.nodup_cons.mp hm
    rcases List.mem_cons.mp h with he | h
    · cases he
      exact List.lookup_cons_self
    · have hk : k ≠ kid := fun hk => hkid (List.mem_map.mpr ⟨(k, s), h, hk⟩)
      rw [List.lookup_cons, show (k == kid) = false by simpa using hk]
      exact ih hm h

theorem newRSASignerFromPEM_eq_ok {kid pem : Str} {signer : RSASigner σ} :
    newRSASignerFromPEM P kid pem = .ok signer ↔
      pem ≠ [] ∧ ∃ key, P.parsePrivateKey pem = .ok key ∧ ⟨key, kid⟩ = signer := by
  unfold newRSASignerFromPEM
  split_ifs with h
  · simp [h]
  · cases P.parsePrivateKey pem <;> simp [h, Except.map]

theorem tryLoadFromEnv_eq_some {getenv : Str → Str} {ks : StaticKeySource σ π}
    (h : tryLoadFromEnv P getenv = .ok (some ks)) :
    ks.active.kid = trimSpace (getenv "ACTIVE_KEY_ID".toList) ∧ ks.active.kid ≠ [] ∧
    P.parsePrivateKey (trimSpace (getenv "ACTIVE_PRIVATE_KEY_PEM".toList)) = .ok ks.active.key ∧
    ∃ km : KeyMap, (trimSpace (getenv "PUBLIC_KEYS".toList) = [] ∧ km = .empty ∨
        P.unmarshalKeyMap (trimSpace (getenv "PUBLIC_KEYS".toList)) = .ok km) ∧
      ks.pubs = km.entries.foldl (publishKey P) (activeKeys P ks.active) := by
  unfold tryLoadFromEnv at h
  simp only [bind, pure, Except.pure, throw, throwThe, MonadExceptOf.throw] at h
  by_cases hid : trimSpace (getenv "ACTIVE_KEY_ID".toList) = []
  · split_ifs at h <;> simp [Except.bind] at h
  by_cases hpem : trimSpace (getenv "ACTIVE_PRIVATE_KEY_PEM".toList) = []
  · split_ifs at h <;> simp [Except.bind] at h
  simp only [hid, hpem, false_and, if_false, except_bind_eq_ok, except_mapError_eq_ok] at h
  obtain ⟨-, -, -, -, -, -, signer, hs, h⟩ := h
  obtain ⟨-, key, hkey, rfl⟩ := (newRSASignerFromPEM_eq_ok P).mp hs
  split_ifs at h with hjson
  · simp only [except_bind_eq_ok, except_mapError_eq_ok, Except.ok.injEq, Option.some.injEq] at h
    obtain ⟨km, hkm, -, rfl, rfl⟩ := h
    exact ⟨rfl, hid, hkey, km, .inr hkm, rfl⟩
  · simp only [except_bind_eq_ok, Except.ok.injEq, Option.some.injEq] at h
    obtain ⟨-, rfl, rfl⟩ := h
    exact ⟨rfl, hid, hkey, .empty, .inl ⟨not_not.mp hjson, rfl⟩, rfl⟩

theorem tryLoadFromFilesystem_eq_some {fs : FileSystem} {keysPath : Str}
    {ks : StaticKeySource σ π} (h : tryLoadFromFilesystem P fs keysPath = .ok (some ks)) :
    ∃ data keyData, fs.readKeysJson (if keysPath = [] then defaultAuthKeysPath else keysPath) =
        .ok data ∧ P.unmarshalKeyData data = .ok keyData ∧
      ks.active.kid = keyData.activeKeyID ∧ ks.active.kid ≠ [] ∧
      P.parsePrivateKey keyData.activePrivateKeyPEM = .ok ks.active.key ∧
      ks.pubs = keyData.publicKeys.entries.foldl (publishKey P) (activeKeys P ks.active) := by
  unfold tryLoadFromFilesystem at h
  generalize (if keysPath = [] then defaultAuthKeysPath else keysPath) = path at h ⊢
  simp only [bind, pure, Except.pure, throw, throwThe, MonadExceptOf.throw] at h
  by_cases hst : fs.statNotExist path = true
  · simp [hst] at h
  rw [if_neg hst] at h
  rcases hdata : fs.readKeysJson path with _ | e | data <;> rw [hdata] at h
  · cases h
  · simp [Except.bind] at h
  simp only [except_bind_eq_ok, except_mapError_eq_ok] at h
  obtain ⟨-, -, keyData, hkd, h⟩ := h
  by_cases hid : keyData.activeKeyID = []
  · simp [hid, Except.bind] at h
  by_cases hpem : keyData.activePrivateKeyPEM = []
  · simp [hid, hpem, Except.bind] at h
  simp only [hid, hpem, if_false, except_bind_eq_ok, except_mapError_eq_ok, Except.ok.injEq,
    Option.some.injEq] at h
  obtain ⟨-, -, -, -, signer, hs, rfl⟩ := h
  obtain ⟨-, key, hkey, rfl⟩ := (newRSASignerFromPEM_eq_ok P).mp hs
  exact ⟨data, keyData, rfl, hkd, rfl, hid, hkey, rfl⟩

theorem tryLoadFromEnv_listed_active_kid (getenv : Str → Str) (key : σ) (km : KeyMap) (s : Str)
    (pub : π) (hid : trimSpace (getenv "ACTIVE_KEY_ID".toList) ≠ [])
    (hpem : trimSpace (getenv "ACTIVE_PRIVATE_KEY_PEM".toList) ≠ [])
    (hkey : P.parsePrivateKey (trimSpace (getenv "ACTIVE_PRIVATE_KEY_PEM".toList)) = .ok key)
    (hjson : trimSpace (getenv "PUBLIC_KEYS".toList) ≠ [])
    (hkm : P.unmarshalKeyMap (trimSpace (getenv "PUBLIC_KEYS".toList)) = .ok km)
    (hs : (trimSpace (getenv "ACTIVE_KEY_ID".toList), s) ∈ km.entries)
    (hpub : P.parsePublicKey s = .ok pub) :
    ∃ ks, tryLoadFromEnv P getenv = .ok (some ks) ∧ ks.active.key = key ∧
      ks.pubs ks.active.kid = some pub := by
  let signer : RSASigner σ := ⟨key, trimSpace (getenv "ACTIVE_KEY_ID".toList)⟩
  refine ⟨⟨signer, km.entries.foldl (publishKey P) (activeKeys P signer)⟩, ?_, rfl, ?_⟩
  · unfold tryLoadFromEnv
    simp only [bind, pure, Except.pure, hid, hpem, hjson, and_false, if_false, ne_eq,
      not_false_eq_true, if_true, newRSASignerFromPEM, hkey, hkm]
    rfl
  · show km.entries.foldl (publishKey P) (activeKeys P signer) signer.kid = some pub
    rw [foldl_publishKey P _ km.nodup, listedKey, lookup_eq_of_mem km.nodup hs]
    simp [hpub, Except.toOption]

theorem tryLoadFromEnv_publishes {getenv : Str → Str} {ks : StaticKeySource σ π}
    (h : tryLoadFromEnv P getenv = .ok (some ks)) :
    ∃ km : KeyMap, (trimSpace (getenv "PUBLIC_KEYS".toList) = [] ∧ km = .empty ∨
        P.unmarshalKeyMap (trimSpace (getenv "PUBLIC_KEYS".toList)) = .ok km) ∧
      ∀ k, ks.pubs k = listedKey P km.entries (activeKeys P ks.active) k := by
  obtain ⟨-, -, -, km, hkm, hpubs⟩ := tryLoadFromEnv_eq_some P h
  exact ⟨km, hkm, fun k => hpubs ▸ foldl_publishKey P _ km.nodup _ k⟩

theorem tryLoadFromFilesystem_publishes {fs : FileSystem} {keysPath : Str}
    {ks : StaticKeySource σ π} (h : tryLoadFromFilesystem P fs keysPath = .ok (some ks)) :
    ∃ data keyData, fs.readKeysJson (if keysPath = [] then defaultAuthKeysPath else keysPath) =
        .ok data ∧ P.unmarshalKeyData data = .ok keyData ∧ ks.active.kid = keyData.activeKeyID ∧
      ∀ k, ks.pubs k = listedKey P keyData.publicKeys.entries (activeKeys P ks.active) k := by
  obtain ⟨data, keyData, hdata, hkd, hkid, -, -, hpubs⟩ := tryLoadFromFilesystem_eq_some P h
  exact ⟨data, keyData, hdata, hkd, hkid, fun k => hpubs ▸ foldl_publishKey P _ keyData.publicKeys.nodup _ k⟩

end

/-- Parsers over key lengths: a private key is its PEM's length and its own public half. -/
def lengthParsers (km : KeyMap) (kd : KeyData) : Parsers Nat Nat :=
  ⟨fun s => .ok s.length, id, fun s => .ok s.length, fun _ => .ok km, fun _ => .ok kd⟩

theorem tryLoadFromEnv_publishes_k1 :
    let getenv : Str → Str := fun v =>
      if v = "ACTIVE_KEY_ID".toList then "k1".toList
      else if v = "ACTIVE_PRIVATE_KEY_PEM".toList then "pem".toList
      else if v = "PUBLIC_KEYS".toList then "keys".toList
      else []
    let P := lengthParsers ⟨[("k2".toList, "xx".toList)], by decide⟩ ⟨[], [], .empty⟩
    ∃ ks, tryLoadFromEnv P getenv = .ok (some ks) ∧
      ∃ km : KeyMap, (trimSpace (getenv "PUBLIC_KEYS".toList) = [] ∧ km = .empty ∨
          P.unmarshalKeyMap (trimSpace (getenv "PUBLIC_KEYS".toList)) = .ok km) ∧
        ∀ k, ks.pubs k = listedKey P km.entries (activeKeys P ks.active) k := by
  intro getenv P
  have h : tryLoadFromEnv P getenv = .ok (some _) := rfl
  exact ⟨_, h, tryLoadFromEnv_publishes P h⟩

theorem tryLoadFromFilesystem_publishes_vault :
    let fs : FileSystem := ⟨fun _ => false, fun _ => .ok "json".toList⟩
    let P := lengthParsers .empty ⟨"k1".toList, "pem".toList,
      ⟨[("k0".toList, "old".toList), ("k9".toList, [])], by decide⟩⟩
    ∃ ks, tryLoadFromFilesystem P fs [] = .ok (some ks) ∧
      ∃ data keyData, fs.readKeysJson (if ([] : Str) = [] then defaultAuthKeysPath else []) =
          .ok data ∧ P.unmarshalKeyData data = .ok keyData ∧ ks.active.kid = keyData.activeKeyID ∧
        ∀ k, ks.pubs k = listedKey P keyData.publicKeys.entries (activeKeys P ks.active) k := by
  intro fs P
  have h : tryLoadFromFilesystem P fs [] = .ok (some _) := rfl
  exact ⟨_, h, tryLoadFromFilesystem_publishes P h⟩

theorem tryLoadFromEnv_listed_active_kid_k1 :
    let P := lengthParsers ⟨[("k1".toList, "xx".toList)], by decide⟩ ⟨[], [], .empty⟩
    let getenv : Str → Str := fun v =>
      if v = "ACTIVE_KEY_ID".toList then "k1".toList
      else if v = "ACTIVE_PRIVATE_KEY_PEM".toList then "pem".toList
      else if v = "PUBLIC_KEYS".toList then "keys".toList
      else []
    (trimSpace (getenv "ACTIVE_KEY_ID".toList) ≠ [] ∧
      trimSpace (getenv "ACTIVE_PRIVATE_KEY_PEM".toList) ≠ [] ∧
      P.parsePrivateKey (trimSpace (getenv "ACTIVE_PRIVATE_KEY_PEM".toList)) = .ok 3 ∧
      trimSpace (getenv "PUBLIC_KEYS".toList) ≠ [] ∧
      P.unmarshalKeyMap (trimSpace (getenv "PUBLIC_KEYS".toList)) =
        .ok ⟨[("k1".toList, "xx".toList)], by decide⟩ ∧
      (trimSpace (getenv "ACTIVE_KEY_ID".toList), "xx".toList) ∈ [("k1".toList, "xx".toList)] ∧
      P.parsePublicKey "xx".toList = .ok 2) ∧
    (∃ ks, tryLoadFromEnv P getenv = .ok (some ks) ∧ ks.active.key = 3 ∧
      ks.pubs ks.active.kid = some 2) ∧ P.publicKey 3 ≠ 2 :=
  ⟨⟨by decide, by decide, rfl, by decide, rfl, by decide, rfl⟩,
    tryLoadFromEnv_listed_active_kid _ _ 3 _ "xx".toList 2 (by decide) (by decide) rfl (by decide)
      rfl (by decide) rfl, by decide⟩

end Authkit.Jwt
