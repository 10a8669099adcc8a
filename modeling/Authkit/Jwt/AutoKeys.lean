import Authkit.Fmt
import Authkit.Jwt.Keys

namespace Authkit.Jwt

def defaultKeysDir : Str := ".runtime/authkit".toList

def privateKeyFile : Str := "private.pem".toList

def keyIDFile : Str := "kid".toList

/-- `filepath.Join(dir, file)` of a clean relative directory and a file name. -/
def joinPath (dir file : Str) : Str := dir ++ '/' :: file

/-- The key directory: what `os.ReadFile` reads at each path, and whether the writes succeed. -/
structure Disk where
  files : Str → Option Str
  mkdirAllOk : Bool
  writeOk : Str → Bool

def Disk.write (d : Disk) (path data : Str) : Disk :=
  { d with files := Function.update d.files path (some data) }

/-- `x509.MarshalPKCS1PrivateKey`, `pem.EncodeToMemory`: a PEM `NewRSASignerFromPEM` reads. -/
structure PemEncoder {σ π : Type} (P : Parsers σ π) where
  encode : σ → Str
  encode_ne_nil : ∀ k, encode k ≠ []
  parse_encode : ∀ k, P.parsePrivateKey (encode k) = .ok k

structure GeneratedKeySource (σ π : Type) where
  signer : RSASigner σ
  pubs : Str → Option π

/-- Parsers over keys written as strings: a private key's PEM is `K` and the key. -/
def tagParsers : Parsers Str Str where
  parsePrivateKey := fun
    | 'K' :: k => .ok k
    | _ => .error "bad key".toList
  publicKey := id
  parsePublicKey := .ok
  unmarshalKeyMap := fun _ => .error "no map".toList
  unmarshalKeyData := fun _ => .error "no data".toList

def tagEncoder : PemEncoder tagParsers := ⟨('K' :: ·), fun _ => List.cons_ne_nil _ _, fun _ => rfl⟩

/-- `isProdEnv()`: the first non-blank of `ENV`, `APP_ENV`, `ENVIRONMENT` is `prod(uction)`. -/
def isProdEnv (getenv : Str → Str) : Bool :=
  let env := trimSpace (getenv "ENV".toList)
  let env := if env = [] then trimSpace (getenv "APP_ENV".toList) else env
  let env := if env = [] then trimSpace (getenv "ENVIRONMENT".toList) else env
  let env := env.map toLower
  decide (env = "production".toList) || decide (env = "prod".toList)

section
variable {σ π : Type} (P : Parsers σ π) (E : PemEncoder P)

def loadKeysFromDisk (d : Disk) : Option (RSASigner σ × (Str → Option π)) := do
  let pemBytes ← d.files (joinPath defaultKeysDir privateKeyFile)
  let kid := match d.files (joinPath defaultKeysDir keyIDFile) with
    | some kidBytes => if trimSpace kidBytes ≠ [] then trimSpace kidBytes else "dev".toList
    | none => "dev".toList
  match newRSASignerFromPEM P kid pemBytes with
  | .ok signer => some (signer, activeKeys P signer)
  | .error _ => none

def persistKeysToDisk (d : Disk) (signer : RSASigner σ) (kid : Str) : Disk × Option Str :=
  if !d.mkdirAllOk then (d, some "create keys directory".toList)
  else
    let privPEM := E.encode signer.key
    if !d.writeOk (joinPath defaultKeysDir privateKeyFile) then (d, some "write private key".toList)
    else
      let d := d.write (joinPath defaultKeysDir privateKeyFile) privPEM
      if !d.writeOk (joinPath defaultKeysDir keyIDFile) then (d, some "write key ID".toList)
      else (d.write (joinPath defaultKeysDir keyIDFile) kid, none)

/-- `NewGeneratedKeySource()` at Unix time `now`, `gen` being `rsa.GenerateKey`'s outcome. -/
def newGeneratedKeySource (d : Disk) (now : Int) (gen : Except Str σ) :
    Except Str (GeneratedKeySource σ π) × Disk :=
  match loadKeysFromDisk P d with
  | some (signer, pubs) => (.ok ⟨signer, pubs⟩, d)
  | none =>
    let kid := "dev-".toList ++ Fmt.formatInt now
    match gen with
    | .error e => (.error ("failed to generate RSA key: ".toList ++ e), d)
    | .ok key =>
      let signer : RSASigner σ := ⟨key, kid⟩
      (.ok ⟨signer, activeKeys P signer⟩, (persistKeysToDisk P E d signer kid).1)

def newAutoKeySource (getenv : Str → Str) (fs : FileSystem) (d : Disk) (now : Int)
    (gen : Except Str σ) : Except Str (StaticKeySource σ π) × Disk :=
  match tryLoadFromEnv P getenv with
  | .error e => (.error ("failed to load keys from environment variables: ".toList ++ e), d)
  | .ok (some ks) => (.ok ks, d)
  | .ok none =>
    match tryLoadFromFilesystem P fs defaultAuthKeysPath with
    | .error e =>
      (.error ("failed to load keys from ".toList ++ defaultAuthKeysPath ++ ": ".toList ++ e), d)
    | .ok (some ks) => (.ok ks, d)
    | .ok none =>
      if isProdEnv getenv then
        (.error ("no JWT keys found in env or ".toList ++ defaultAuthKeysPath ++
          (" and auto-generation is disabled in production; set " ++
            "ACTIVE_KEY_ID/ACTIVE_PRIVATE_KEY_PEM or mount keys.json").toList), d)
      else
        match newGeneratedKeySource P E d now gen with
        | (.error e, d') => (.error ("failed to generate development keys: ".toList ++ e), d')
        | (.ok g, d') => (.ok ⟨g.signer, g.pubs⟩, d')

/-- Persisting works: the directory can be made and both files written. -/
structure Writable (d : Disk) : Prop where
  mkdirAll : d.mkdirAllOk = true
  writeKey : d.writeOk (joinPath defaultKeysDir privateKeyFile) = true
  writeKid : d.writeOk (joinPath defaultKeysDir keyIDFile) = true

/-- The disk holds `signer`: loading it gives the signer and its public half under its kid. -/
def Persisted (d : Disk) (signer : RSASigner σ) : Prop :=
  loadKeysFromDisk P d = some (signer, activeKeys P signer)

theorem keyPath_ne_kidPath :
    joinPath defaultKeysDir privateKeyFile ≠ joinPath defaultKeysDir keyIDFile := by
  decide

@[simp] theorem Disk.write_writeOk (d : Disk) (path data : Str) :
    (d.write path data).writeOk = d.writeOk :=
  rfl

theorem persisted_write (d : Disk) (key : σ) {kid : Str} (hkid : trimSpace kid = kid)
    (hne : kid ≠ []) :
    Persisted P ((d.write (joinPath defaultKeysDir privateKeyFile) (E.encode key)).write
      (joinPath defaultKeysDir keyIDFile) kid) ⟨key, kid⟩ := by
  simp [Persisted, loadKeysFromDisk, Disk.write, Function.update_noteq keyPath_ne_kidPath, hkid,
    hne, newRSASignerFromPEM, E.encode_ne_nil, E.parse_encode, Except.map]

theorem trimSpace_devKid (now : Int) :
    trimSpace ("dev-".toList ++ Fmt.formatInt now) = "dev-".toList ++ Fmt.formatInt now := by
  have h : ∀ c ∈ "dev-".toList ++ Fmt.formatInt now, isSpace c = false := by
    intro c hc
    rcases List.mem_append.mp hc with hc | hc
    · exact (by decide : ∀ c ∈ "dev-".toList, isSpace c = false) c hc
    · exact Fmt.isSpace_formatInt now c hc
  exact trimSpace_of_trimmed ⟨fun c hc => h c (List.mem_of_mem_head? hc),
    fun c hc => h c (List.mem_of_mem_getLast? hc)⟩

theorem newGeneratedKeySource_of_persisted {d : Disk} {signer : RSASigner σ}
    (h : Persisted P d signer) (now : Int) (gen : Except Str σ) :
    newGeneratedKeySource P E d now gen = (.ok ⟨signer, activeKeys P signer⟩, d) := by
  rw [newGeneratedKeySource, show loadKeysFromDisk P d = _ from h]

theorem loadKeysFromDisk_pubs {d : Disk} {signer : RSASigner σ} {pubs : Str → Option π}
    (h : loadKeysFromDisk P d = some (signer, pubs)) : pubs = activeKeys P signer := by
  unfold loadKeysFromDisk at h
  cases hf : d.files (joinPath defaultKeysDir privateKeyFile) with
  | none => simp [hf] at h
  | some pem =>
    simp only [hf, Option.bind_eq_bind, Option.some_bind] at h
    split at h
    all_goals first | (cases h; rfl) | cases h

theorem persistKeysToDisk_of_writable {d : Disk} (hw : Writable d) (signer : RSASigner σ)
    (kid : Str) :
    (persistKeysToDisk P E d signer kid).1 =
      (d.write (joinPath defaultKeysDir privateKeyFile) (E.encode signer.key)).write
        (joinPath defaultKeysDir keyIDFile) kid := by
  simp [persistKeysToDisk, hw.mkdirAll, hw.writeKey, hw.writeKid]

theorem persisted_newGeneratedKeySource {d : Disk} (hw : Writable d) (now : Int)
    (gen : Except Str σ) {g : GeneratedKeySource σ π}
    (hg : (newGeneratedKeySource P E d now gen).1 = .ok g) :
    Persisted P (newGeneratedKeySource P E d now gen).2 g.signer ∧
      g.pubs = activeKeys P g.signer := by
  unfold newGeneratedKeySource at hg ⊢
  split
  next signer pubs hl =>
    rw [hl] at hg
    cases hg
    have hp := loadKeysFromDisk_pubs P hl
    exact ⟨hp ▸ hl, hp⟩
  next hl =>
    rw [hl] at hg
    cases gen with
    | error e => cases hg
    | ok key =>
      cases hg
      refine ⟨?_, rfl⟩
      dsimp only
      rw [persistKeysToDisk_of_writable P E hw]
      exact persisted_write P E d key (trimSpace_devKid now) (by simp)

/-- Successive starts of a development process on one disk: what each start returns. -/
def startups (d : Disk) : List (Int × Except Str σ) → List (Except Str (GeneratedKeySource σ π))
  | [] => []
  | (now, gen) :: rest =>
    let (r, d') := newGeneratedKeySource P E d now gen
    r :: startups d' rest

theorem startups_cons (d : Disk) (now : Int) (gen : Except Str σ)
    (rest : List (Int × Except Str σ)) :
    startups P E d ((now, gen) :: rest) =
      (newGeneratedKeySource P E d now gen).1 ::
        startups P E (newGeneratedKeySource P E d now gen).2 rest :=
  rfl

theorem writable_newGeneratedKeySource {d : Disk} (hw : Writable d) (now : Int)
    (gen : Except Str σ) : Writable (newGeneratedKeySource P E d now gen).2 := by
  unfold newGeneratedKeySource
  split
  · exact hw
  · cases gen with
    | error e => exact hw
    | ok key =>
      dsimp only
      rw [persistKeysToDisk_of_writable P E hw]
      exact ⟨hw.mkdirAll, hw.writeKey, hw.writeKid⟩

theorem startups_of_persisted {d : Disk} {signer : RSASigner σ} (h : Persisted P d signer) :
    ∀ boots : List (Int × Except Str σ),
      startups P E d boots = boots.map fun _ => .ok ⟨signer, activeKeys P signer⟩
  | [] => rfl
  | (now, gen) :: rest => by
    rw [startups_cons, newGeneratedKeySource_of_persisted P E h, List.map_cons,
      startups_of_persisted h rest]

theorem startups_stable (d : Disk) (hw : Writable d) (boots : List (Int × Except Str σ)) :
    ∀ i j, i < j → j < boots.length → ∀ g : GeneratedKeySource σ π,
      (startups P E d boots)[i]? = some (.ok g) → (startups P E d boots)[j]? = some (.ok g) := by
  induction boots generalizing d with
  | nil => intro i j _ hj; simp at hj
  | cons b rest ih =>
    obtain ⟨now, gen⟩ := b
    intro i j hij hj g hi
    obtain ⟨j, rfl⟩ : ∃ j', j = j' + 1 := ⟨j - 1, by omega⟩
    rw [startups_cons] at hi ⊢
    cases i with
    | zero =>
      obtain ⟨hp, hpubs⟩ := persisted_newGeneratedKeySource P E hw now gen (by simpa using hi)
      have hj' : j < rest.length := by simpa using hj
      simp only [List.getElem?_cons_succ, startups_of_persisted P E hp, List.getElem?_map,
        List.getElem?_eq_getElem hj', Option.map_some']
      rw [← hpubs]
    | succ i =>
      rw [List.getElem?_cons_succ]
      exact ih _ (writable_newGeneratedKeySource P E hw now gen) i j (by omega)
        (by simpa using hj) g (by simpa using hi)

/-- A start that cannot generate a key, then one at 200 that generates `k1`: at 300 `k1` is back. -/
theorem startups_stable_dev :
    (startups tagParsers tagEncoder ⟨fun _ => none, true, fun _ => true⟩
        [(100, .error "no entropy".toList), (200, .ok "k1".toList), (300, .ok "k2".toList)])[2]? =
      some (.ok ⟨⟨"k1".toList, "dev-".toList ++ Fmt.formatInt 200⟩,
        activeKeys tagParsers ⟨"k1".toList, "dev-".toList ++ Fmt.formatInt 200⟩⟩) :=
  startups_stable tagParsers tagEncoder _ ⟨rfl, rfl, rfl⟩ _ 1 2 (by decide) (by decide) _ rfl

end

end Authkit.Jwt
