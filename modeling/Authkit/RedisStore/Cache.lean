import Authkit.Oidc.StateCache
import Authkit.RateLimit.Redis

namespace Authkit.RedisStore

open Oidc

variable {α : Type}

/-- A string key of Redis: its bytes, and the instant in ms after which it has expired. -/
structure Value where
  bytes : Str
  expireAt : Option Int
  deriving DecidableEq, Repr

abbrev KV := Str → Option Value

/-- `GET key` at server time `now`: a key past its expiry is gone, deleted as it is read. -/
def get (kv : KV) (now : Int) (k : Str) : Option Str × KV :=
  match kv k with
  | some v => if v.expireAt.any (· < now) then (none, Function.update kv k none) else (some v.bytes, kv)
  | none => (none, kv)
/-- `SET key value PX ms` at server time `now`. -/
def set (kv : KV) (now : Int) (k b : Str) (ms : Int) : KV :=
  Function.update kv k (some ⟨b, some (now + ms)⟩)

def del (kv : KV) (k : Str) : KV := Function.update kv k none

/-- go-redis `formatMs`: whole milliseconds, and 1 for a positive duration under a millisecond. -/
def formatMs (d : Int) : Int := if 0 < d ∧ d < 1000000 then 1 else d.tdiv 1000000

/-- The expiry in ms of go-redis `Set` with `d > 0`: `PX formatMs(d)`, or `EX formatSec(d)`. -/
def expirationMs (d : Int) : Int :=
  if d < 1000000000 ∨ d % 1000000000 ≠ 0 then formatMs d else RateLimit.Redis.formatSec d * 1000

/-- `json.Marshal` and `json.Unmarshal` on the cached type: decoding an encoding gives it back. -/
structure Codec (α : Type) where
  marshal : α → Str
  unmarshal : Str → Except Str α
  unmarshal_marshal : ∀ v, unmarshal (marshal v) = .ok v

structure Cache where
  keyNS : Str
  ttl : Int
  deriving DecidableEq, Repr

def defaultTtl : Int := 15 * 60 * 1000000000

/-- The constructor both caches share: the cache's own prefix, and fifteen minutes, by default. -/
def newCache (defaultPrefix keyPrefix : Str) (ttl : Int) : Cache :=
  ⟨if keyPrefix = [] then defaultPrefix else keyPrefix, if ttl ≤ 0 then defaultTtl else ttl⟩

def newSIWSCache (keyPrefix : Str) (ttl : Int) : Cache :=
  newCache "auth:siws:nonce:".toList keyPrefix ttl

def newStateCache (keyPrefix : Str) (ttl : Int) : Cache :=
  newCache "auth:oidc:state:".toList keyPrefix ttl

namespace Cache

def key (c : Cache) (k : Str) : Str := c.keyNS ++ k

def put (c : Cache) (codec : Codec α) (kv : KV) (now : Int) (k : Str) (v : α) : KV :=
  set kv now (c.key k) (codec.marshal v) (expirationMs c.ttl)

def getValue (c : Cache) (codec : Codec α) (kv : KV) (now : Int) (k : Str) :
    Except Str (Option α) × KV :=
  match get kv now (c.key k) with
  | (none, kv') => (.ok none, kv')
  | (some b, kv') => ((codec.unmarshal b).map some, kv')

def delKey (c : Cache) (kv : KV) (k : Str) : KV := del kv (c.key k)

/-- One call at server time `now`; a sweep does nothing, as Redis expires keys itself. -/
def apply (c : Cache) (codec : Codec α) (kv : KV) (now : Int) :
    Op α → Option (Except Str (Option α)) × KV
  | .put k v => (none, c.put codec kv now k v)
  | .get k => let (r, kv') := c.getValue codec kv now k; (some r, kv')
  | .del k => (none, c.delKey kv k)
  | .cleanup => (none, kv)

def run (c : Cache) (codec : Codec α) : KV → List (Int × Op α) → List (Except Str (Option α))
  | _, [] => []
  | kv, (now, op) :: es => (c.apply codec kv now op).1.toList ++ c.run codec (c.apply codec kv now op).2 es

end Cache

def entryOf (codec : Codec α) (ms : Int) : Option (Int × Op α) → Option Value
  | some (p, .put _ v) => some ⟨codec.marshal v, some (p + ms)⟩
  | _ => none

/-- A key holds the entry of the latest write of it, or nothing once that `Put` has expired. -/
def Stored (codec : Codec α) (ms now : Int) (x : Option Value) (w : Option (Int × Op α)) : Prop :=
  x = entryOf codec ms w ∨ (x = none ∧ ∀ p k v, w = some (p, .put k v) → p + ms < now)

def Cache.Holds (c : Cache) (codec : Codec α) (kv : KV) (hist : List (Int × Op α)) (now : Int) :
    Prop :=
  ∀ k, Stored codec (expirationMs c.ttl) now (kv (c.key k)) (lastWrite hist k)

theorem Stored.mono {codec : Codec α} {ms now now' : Int} {x : Option Value}
    {w : Option (Int × Op α)} (h : Stored codec ms now x w) (hn : now ≤ now') :
    Stored codec ms now' x w :=
  h.imp_right fun h => ⟨h.1, fun p k v hw => lt_of_lt_of_le (h.2 p k v hw) hn⟩

theorem Cache.Holds.mono {c : Cache} {codec : Codec α} {kv : KV} {hist : List (Int × Op α)}
    {now now' : Int} (h : c.Holds codec kv hist now) (hn : now ≤ now') : c.Holds codec kv hist now' :=
  fun k => (h k).mono hn

theorem Cache.key_inj (c : Cache) {k k' : Str} (h : c.key k = c.key k') : k = k' :=
  List.append_cancel_left h

theorem Stored.drop {codec : Codec α} {ms now t : Int} {v : Value} {w : Option (Int × Op α)}
    (h : Stored codec ms now (some v) w) (hexp : v.expireAt.any (· < t)) : Stored codec ms t none w := by
  rcases h with h | ⟨h, _⟩
  · refine .inr ⟨rfl, fun p k v' hw => ?_⟩
    rw [hw] at h
    cases h
    simpa using hexp
  · cases h

theorem Cache.getValue_snd (c : Cache) (codec : Codec α) (kv : KV) (t : Int) (k : Str) :
    (c.getValue codec kv t k).2 = (get kv t (c.key k)).2 := by
  unfold Cache.getValue
  split <;> simp_all

theorem get_snd_of_ne (kv : KV) (t : Int) {k x : Str} (hx : x ≠ k) : (get kv t k).2 x = kv x := by
  unfold get
  split
  · split <;> simp [Function.update_noteq hx]
  · rfl

theorem Cache.apply_snd_of_ne (c : Cache) (codec : Codec α) (kv : KV) (t : Int) (op : Op α)
    {x : Str} (hx : ∀ k, x ≠ c.key k) : (c.apply codec kv t op).2 x = kv x := by
  cases op with
  | get k => exact (congrFun (c.getValue_snd codec kv t k) x).trans (get_snd_of_ne kv t (hx k))
  | _ => simp [Cache.apply, Cache.put, Cache.delKey, set, del, Function.update_noteq (hx _)]

theorem Cache.Holds.getValue {c : Cache} {codec : Codec α} {kv : KV} {hist : List (Int × Op α)}
    {now t : Int} (h : c.Holds codec kv hist now) (ht : now ≤ t) (k : Str) :
    (c.getValue codec kv t k).1 = .ok (ttlLookup (expirationMs c.ttl) hist k t) := by
  unfold Cache.getValue get ttlLookup
  rcases h k with h | ⟨h, hexp⟩ <;> rw [h]
  · rcases lastWrite hist k with _ | ⟨p, _ | _ | _ | _⟩ <;> try rfl
    rename_i k' v
    by_cases ht : t ≤ p + expirationMs c.ttl
    · simp [entryOf, ht, not_lt.mpr ht, codec.unmarshal_marshal, Except.map]
    · simp [entryOf, ht, show p + expirationMs c.ttl < t by omega]
  · rcases hw : lastWrite hist k with _ | ⟨p, _ | _ | _ | _⟩ <;> try rfl
    rename_i k' v
    simp [show ¬ t ≤ p + expirationMs c.ttl by have := hexp p k' v hw; omega]

theorem Cache.Holds.apply {c : Cache} {codec : Codec α} {kv : KV} {hist : List (Int × Op α)}
    {now t : Int} (h : c.Holds codec kv hist now) (ht : now ≤ t) (op : Op α) :
    c.Holds codec (c.apply codec kv t op).2 (hist ++ [(t, op)]) t := by
  intro k'
  cases op with
  | put k v =>
    by_cases hk : k' = k
    · subst hk
      exact .inl (by simp [Cache.apply, Cache.put, set, lastWrite_append, Op.writes, entryOf])
    · rw [lastWrite_append_of_not_writes _ (by simp [Op.writes, Ne.symm hk])]
      simpa [Cache.apply, Cache.put, set, Function.update_noteq (fun e => hk (c.key_inj e))]
        using (h k').mono ht
  | get k =>
    rw [lastWrite_append_of_not_writes (e := (t, .get k)) _ rfl]
    show Stored _ _ _ ((c.getValue codec kv t k).2 (c.key k')) _
    rw [Cache.getValue_snd]
    by_cases hk : k' = k
    · subst hk
      unfold get
      cases hd : kv (c.key k') with
      | none => simpa [hd] using (h k').mono ht
      | some v =>
        by_cases hexp : v.expireAt.any (· < t)
        · simpa [hexp] using (hd ▸ h k').drop hexp
        · simpa [hexp, hd] using (h k').mono ht
    · rw [get_snd_of_ne kv t (fun e => hk (c.key_inj e))]
      exact (h k').mono ht
  | del k =>
    by_cases hk : k' = k
    · subst hk
      exact .inl (by simp [Cache.apply, Cache.delKey, del, lastWrite_append, Op.writes, entryOf])
    · rw [lastWrite_append_of_not_writes _ (by simp [Op.writes, Ne.symm hk])]
      simpa [Cache.apply, Cache.delKey, del, Function.update_noteq (fun e => hk (c.key_inj e))]
        using (h k').mono ht
  | cleanup => rw [lastWrite_append_of_not_writes (e := (t, .cleanup)) _ rfl]; exact (h k').mono ht

theorem Cache.Holds.apply_fst {c : Cache} {codec : Codec α} {kv : KV} {hist : List (Int × Op α)}
    {now t : Int} (h : c.Holds codec kv hist now) (ht : now ≤ t) (op : Op α) :
    (c.apply codec kv t op).1 =
      op.query.map fun k => .ok (ttlLookup (expirationMs c.ttl) hist k t) := by
  cases op <;> simp [Cache.apply, Op.query, h.getValue ht]

theorem Cache.run_eq_ttlGets (c : Cache) (codec : Codec α) (es : List (Int × Op α)) :
    ∀ (kv : KV) (past : List (Int × Op α)) (now : Int), c.Holds codec kv past now →
    (now :: es.map Prod.fst).Pairwise (· ≤ ·) →
    c.run codec kv es = (ttlGets (expirationMs c.ttl) past es).map .ok := by
  induction es with
  | nil => intros; rfl
  | cons e es ih =>
    obtain ⟨t, op⟩ := e
    intro kv past now h hes
    have ht : now ≤ t := List.rel_of_pairwise_cons hes (List.mem_cons_self _ _)
    rw [Cache.run, ttlGets, List.map_append, h.apply_fst ht,
      ih _ _ t (h.apply ht op) (List.pairwise_cons.mp hes).2]
    cases op.query <;> rfl

section Shared

variable {β : Type}

/-- Calls on two caches sharing one Redis keyspace, interleaved: each cache's answers. -/
def runShared (c₁ : Cache) (codec₁ : Codec α) (c₂ : Cache) (codec₂ : Codec β) :
    KV → List (Int × (Op α ⊕ Op β)) → List (Except Str (Option α)) × List (Except Str (Option β))
  | _, [] => ([], [])
  | kv, (t, .inl op) :: es =>
    let r := runShared c₁ codec₁ c₂ codec₂ (c₁.apply codec₁ kv t op).2 es
    ((c₁.apply codec₁ kv t op).1.toList ++ r.1, r.2)
  | kv, (t, .inr op) :: es =>
    let r := runShared c₁ codec₁ c₂ codec₂ (c₂.apply codec₂ kv t op).2 es
    (r.1, (c₂.apply codec₂ kv t op).1.toList ++ r.2)

def leftCalls (es : List (Int × (Op α ⊕ Op β))) : List (Int × Op α) :=
  es.filterMap fun e => e.2.getLeft?.map (e.1, ·)

def rightCalls (es : List (Int × (Op α ⊕ Op β))) : List (Int × Op β) :=
  es.filterMap fun e => e.2.getRight?.map (e.1, ·)

theorem Cache.Holds.apply_other {c₁ c₂ : Cache} {codec₁ : Codec α} {kv : KV}
    {hist : List (Int × Op α)} {now t : Int} (h : c₁.Holds codec₁ kv hist now) (ht : now ≤ t)
    (hdisj : ∀ k k', c₁.key k ≠ c₂.key k') (codec₂ : Codec β) (op : Op β) :
    c₁.Holds codec₁ (c₂.apply codec₂ kv t op).2 hist t := fun k => by
  rw [c₂.apply_snd_of_ne codec₂ kv t op (hdisj k)]
  exact (h k).mono ht

theorem runShared_eq (c₁ : Cache) (codec₁ : Codec α) (c₂ : Cache) (codec₂ : Codec β)
    (hdisj : ∀ k k', c₁.key k ≠ c₂.key k') (es : List (Int × (Op α ⊕ Op β))) :
    ∀ (kv : KV) (past₁ : List (Int × Op α)) (past₂ : List (Int × Op β)) (now : Int),
    c₁.Holds codec₁ kv past₁ now → c₂.Holds codec₂ kv past₂ now →
    (now :: es.map Prod.fst).Pairwise (· ≤ ·) →
    runShared c₁ codec₁ c₂ codec₂ kv es =
      ((ttlGets (expirationMs c₁.ttl) past₁ (leftCalls es)).map .ok,
        (ttlGets (expirationMs c₂.ttl) past₂ (rightCalls es)).map .ok) := by
  induction es with
  | nil => intros; rfl
  | cons e es ih =>
    obtain ⟨t, op | op⟩ := e <;> intro kv past₁ past₂ now h₁ h₂ hes <;>
      have ht : now ≤ t := List.rel_of_pairwise_cons hes (List.mem_cons_self _ _) <;>
      have hes' := (List.pairwise_cons.mp hes).2
    · rw [runShared, ih _ _ _ t (h₁.apply ht op)
        (h₂.apply_other ht (fun k k' e => hdisj k' k e.symm) _ op) hes']
      simp only [leftCalls, rightCalls, List.filterMap_cons, Sum.getLeft?, Sum.getRight?,
        Option.map_some', Option.map_none', ttlGets, List.map_append, h₁.apply_fst ht]
      cases op.query <;> rfl
    · rw [runShared, ih _ _ _ t (h₁.apply_other ht hdisj _ op) (h₂.apply ht op) hes']
      simp only [leftCalls, rightCalls, List.filterMap_cons, Sum.getLeft?, Sum.getRight?,
        Option.map_some', Option.map_none', ttlGets, List.map_append, h₂.apply_fst ht]
      cases op.query <;> rfl

end Shared

theorem holds_empty (c : Cache) (codec : Codec α) (now : Int) :
    c.Holds codec (fun _ => none) [] now :=
  fun _ => .inl rfl

/-- The default prefixes differ at their sixth character, so no SIWS key is a state key. -/
theorem siws_key_ne_state_key (ttl₁ ttl₂ : Int) (k k' : Str) :
    (newSIWSCache [] ttl₁).key k ≠ (newStateCache [] ttl₂).key k' := fun h => by
  have := congrArg (·[5]?) h
  simp [newSIWSCache, newStateCache, newCache, Cache.key] at this

/-- While the server clock does not go back, when Redis removes an expired key cannot be seen. -/
theorem caches_share_redis {β : Type} (ttl₁ ttl₂ : Int) (codec₁ : Codec α) (codec₂ : Codec β)
    (es : List (Int × (Op α ⊕ Op β))) (hes : (es.map Prod.fst).Pairwise (· ≤ ·)) :
    runShared (newSIWSCache [] ttl₁) codec₁ (newStateCache [] ttl₂) codec₂ (fun _ => none) es =
      ((ttlGets (expirationMs (if ttl₁ ≤ 0 then defaultTtl else ttl₁)) [] (leftCalls es)).map .ok,
        (ttlGets (expirationMs (if ttl₂ ≤ 0 then defaultTtl else ttl₂)) [] (rightCalls es)).map .ok) := by
  obtain ⟨m, hm⟩ := (es.map Prod.fst).toFinset.bddBelow
  exact runShared_eq _ _ _ _ (siws_key_ne_state_key ttl₁ ttl₂) es _ [] [] m (holds_empty _ _ m)
    (holds_empty _ _ m) (.cons (fun x hx => hm (List.mem_toFinset.mpr hx)) hes)

def textCodec : Codec Str := ⟨id, .ok, fun _ => rfl⟩

theorem caches_share_redis_nonce_state :
    let es : List (Int × (Op Str ⊕ Op Str)) := [(0, .inl (.put "n".toList "c".toList)),
      (1, .inr (.put "n".toList "s".toList)), (2, .inl (.get "n".toList)),
      (3, .inr (.del "n".toList)), (4, .inl (.get "n".toList)), (5, .inr (.get "n".toList))]
    runShared (newSIWSCache [] 0) textCodec (newStateCache [] 0) textCodec (fun _ => none) es =
      ((ttlGets (expirationMs (if (0 : Int) ≤ 0 then defaultTtl else 0)) [] (leftCalls es)).map .ok,
        (ttlGets (expirationMs (if (0 : Int) ≤ 0 then defaultTtl else 0)) [] (rightCalls es)).map .ok) :=
  caches_share_redis 0 0 textCodec textCodec _ (by decide)

def retime (f : Int → Int) (es : List (Int × Op α)) : List (Int × Op α) :=
  es.map fun e => (f e.1, e.2)

/-- The Redis server's clock in ms, read at the same instants as a clock in ns. -/
def toMillis (es : List (Int × Op α)) : List (Int × Op α) := retime (· / 1000000) es

theorem lastWrite_retime (f : Int → Int) (hist : List (Int × Op α)) (k : Str) :
    lastWrite (retime f hist) k = (lastWrite hist k).map fun e => (f e.1, e.2) := by
  simp only [lastWrite, retime, ← List.map_reverse, List.find?_map]
  rfl

theorem mem_of_lastWrite {hist : List (Int × Op α)} {k : Str} {e : Int × Op α}
    (h : lastWrite hist k = some e) : e ∈ hist :=
  List.mem_reverse.mp (List.mem_of_find?_eq_some h)

theorem ttlGets_retime_extends (f g : Int → Int) (ttl₁ ttl₂ : Int) (P : Int → Prop)
    (h : ∀ p t, P p → P t → f t ≤ f p + ttl₁ → g t ≤ g p + ttl₂) (es : List (Int × Op α)) :
    ∀ past : List (Int × Op α), (∀ e ∈ past ++ es, P e.1) →
      List.Forall₂ (fun a b => a = none ∨ a = b) (ttlGets ttl₁ (retime f past) (retime f es))
        (ttlGets ttl₂ (retime g past) (retime g es)) := by
  induction es with
  | nil => intros; exact .nil
  | cons e es ih =>
    obtain ⟨t, op⟩ := e
    intro past hP
    have happ : ∀ f : Int → Int, retime f (past ++ [(t, op)]) = retime f past ++ [(f t, op)] :=
      fun f => by simp [retime]
    have hlook : ∀ k, ttlLookup ttl₁ (retime f past) k (f t) = none ∨
        ttlLookup ttl₁ (retime f past) k (f t) = ttlLookup ttl₂ (retime g past) k (g t) := by
      intro k
      simp only [ttlLookup, lastWrite_retime]
      rcases hw : lastWrite past k with _ | ⟨p, _ | _ | _ | _⟩ <;> simp only [Option.map_some',
        Option.map_none', true_or]
      by_cases h₁ : f t ≤ f p + ttl₁
      · have hp := hP _ (List.mem_append_left _ (mem_of_lastWrite hw))
        have ht := hP _ (List.mem_append_right _ (List.mem_cons_self _ _))
        simp [h₁, h p t hp ht h₁]
      · simp [h₁]
    rw [show retime f ((t, op) :: es) = (f t, op) :: retime f es from rfl,
      show retime g ((t, op) :: es) = (g t, op) :: retime g es from rfl, ttlGets, ttlGets,
      ← happ, ← happ]
    refine List.rel_append ?_ (ih _ fun e he => hP e (by simpa using he))
    cases op.query with
    | none => exact .nil
    | some k => exact .cons (hlook k) .nil

theorem forall₂_extends_antisymm {l₁ l₂ : List (Option α)}
    (h₁ : List.Forall₂ (fun a b => a = none ∨ a = b) l₁ l₂)
    (h₂ : List.Forall₂ (fun a b => a = none ∨ a = b) l₂ l₁) : l₁ = l₂ := by
  induction h₁ with
  | nil => rfl
  | cons hab _ ih =>
    cases h₂ with
    | cons hba h₂ =>
      rw [ih h₂]
      rcases hab with rfl | rfl <;> rcases hba with h | h <;> simp_all

theorem expirationMs_mul (ttl : Int) (hpos : 0 < ttl) (hms : ttl % 1000000 = 0) :
    expirationMs ttl * 1000000 = ttl := by
  unfold expirationMs formatMs RateLimit.Redis.formatSec
  rw [Int.tdiv_eq_ediv hpos.le (by decide), Int.tdiv_eq_ediv hpos.le (by decide)]
  split_ifs <;> omega

/-- Redis rounds both readings down to the millisecond, so it may still find data for up to 1 ms. -/
theorem stateCache_backends_agree (ttl : Int) (hpos : 0 < ttl) (hms : ttl % 1000000 = 0)
    (keyPrefix : Str) (codec : Codec α) (es : List (Int × Op α))
    (hes : (es.map Prod.fst).Pairwise (· ≤ ·)) :
    ∃ rs : List (Option α),
      (newStateCache keyPrefix ttl).run codec (fun _ => none) (toMillis es) = rs.map .ok ∧
      List.Forall₂ (fun m r => m = none ∨ m = r) ((Oidc.newStateCache ttl).run es) rs ∧
      List.Forall₂ (fun r m => r = none ∨ r = m) rs
        ((Oidc.newStateCache (ttl + 1000000)).run es) ∧
      ((∀ e ∈ es, e.1 % 1000000 = 0) → rs = (Oidc.newStateCache ttl).run es) := by
  have hexp := expirationMs_mul ttl hpos hms
  have hid : retime (fun t => t) es = es := by simp [retime]
  have hmem : ∀ ttl', 0 < ttl' → (Oidc.newStateCache ttl' : StateCache α).run es =
      ttlGets ttl' (retime (fun t => t) []) (retime (fun t => t) es) := fun ttl' h => by
    rw [newStateCache_run ttl' es hes, hid]
    simp [Oidc.newStateCache, not_le.mpr h, retime]
  have hsorted : ((toMillis es).map Prod.fst).Pairwise (· ≤ ·) := by
    rw [show (toMillis es).map Prod.fst = (es.map Prod.fst).map (· / 1000000) by
      simp [toMillis, retime]]
    exact hes.map _ fun a b h => Int.ediv_le_ediv (by decide) h
  have hfound : List.Forall₂ (fun a b => a = none ∨ a = b)
      (ttlGets ttl (retime (fun t => t) []) (retime (fun t => t) es))
      (ttlGets (ttl / 1000000) (retime (· / 1000000) []) (toMillis es)) :=
    ttlGets_retime_extends _ _ _ _ (fun _ => True) (fun p t _ _ h => by omega) es [] (by simp)
  obtain ⟨m, hm⟩ := ((toMillis es).map Prod.fst).toFinset.bddBelow
  refine ⟨_, ?_, hmem ttl hpos ▸ hfound, ?_, fun hal => ?_⟩
  · rw [Cache.run_eq_ttlGets _ _ _ _ [] m (holds_empty _ _ m)
      (.cons (fun x hx => hm (List.mem_toFinset.mpr hx)) hsorted)]
    simp [newStateCache, newCache, not_le.mpr hpos, retime, show expirationMs ttl = ttl / 1000000 by omega]
  · rw [hmem _ (by omega)]
    exact ttlGets_retime_extends _ _ _ _ (fun _ => True) (fun p t _ _ h => by omega) es [] (by simp)
  · rw [hmem ttl hpos]
    exact (forall₂_extends_antisymm hfound (ttlGets_retime_extends _ _ _ _ (· % 1000000 = 0)
      (fun p t hp ht h => by omega) es [] (by simpa using hal))).symm

/-- TTL 10 ms, `Put` at 0.9 ms, `Get` at 10.95 ms: Redis, reading 0 ms and 10 ms, still finds it. -/
theorem stateCache_backends_agree_subMillisecond :
    ∃ rs : List (Option Str),
      (newStateCache [] 10000000).run textCodec (fun _ => none)
        (toMillis [(900000, .put "s".toList "v".toList), (10950000, .get "s".toList)]) =
          rs.map .ok ∧
      List.Forall₂ (fun m r => m = none ∨ m = r) ((Oidc.newStateCache 10000000).run
        [(900000, .put "s".toList "v".toList), (10950000, .get "s".toList)]) rs ∧
      List.Forall₂ (fun r m => r = none ∨ r = m) rs ((Oidc.newStateCache (10000000 + 1000000)).run
        [(900000, .put "s".toList "v".toList), (10950000, .get "s".toList)]) ∧
      ((∀ e ∈ [((900000 : Int), (.put "s".toList "v".toList : Op Str)),
          (10950000, .get "s".toList)], e.1 % 1000000 = 0) →
        rs = (Oidc.newStateCache 10000000).run
          [(900000, .put "s".toList "v".toList), (10950000, .get "s".toList)]) :=
  stateCache_backends_agree _ (by decide) (by decide) _ _ _ (by decide)

example :
    (newStateCache [] 10000000).run textCodec (fun _ => none)
        (toMillis [(900000, .put "s".toList "v".toList), (10950000, .get "s".toList)]) =
      [.ok (some "v".toList)] ∧
    (Oidc.newStateCache 10000000).run
        [(900000, .put "s".toList "v".toList), (10950000, .get "s".toList)] = [none] := by
  decide

/-- Without a positive TTL the in-memory cache keeps data ten minutes, the Redis one fifteen. -/
example :
    (newStateCache [] 0).run textCodec (fun _ => none)
        (toMillis [(0, .put "s".toList "v".toList), (720000000000, .get "s".toList)]) =
      [.ok (some "v".toList)] ∧
    (Oidc.newStateCache 0).run [(0, .put "s".toList "v".toList), (720000000000, .get "s".toList)] =
      [none] := by
  decide

end Authkit.RedisStore
