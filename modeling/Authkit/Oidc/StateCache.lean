import Authkit.Text

namespace Authkit.Oidc

variable {α : Type}

/-- `item`: a state's data and the instant (in ns) after which it has expired. -/
structure Item (α : Type) where
  v : α
  exp : Int
  deriving DecidableEq, Repr

/-- The in-memory `StateCache`: its TTL in ns and its entries. -/
structure StateCache (α : Type) where
  ttl : Int
  data : Str → Option (Item α)

def defaultTtl : Int := 10 * 60 * 1000000000

/-- `NewStateCache(ttl)`: a TTL that is not positive becomes ten minutes. -/
def newStateCache (ttl : Int) : StateCache α :=
  ⟨if ttl ≤ 0 then defaultTtl else ttl, fun _ => none⟩

namespace StateCache

def put (s : StateCache α) (now : Int) (state : Str) (v : α) : StateCache α :=
  { s with data := Function.update s.data state (some ⟨v, now + s.ttl⟩) }

/-- `Get(state)` at `now`: the data if found and not expired; an expired entry is deleted. -/
def get (s : StateCache α) (now : Int) (state : Str) : Option α × StateCache α :=
  match s.data state with
  | none => (none, s)
  | some it =>
    if it.exp < now then (none, { s with data := Function.update s.data state none })
    else (some it.v, s)

def del (s : StateCache α) (state : Str) : StateCache α :=
  { s with data := Function.update s.data state none }

/-- `cleanup()` at `now`: every expired entry is deleted. -/
def cleanup (s : StateCache α) (now : Int) : StateCache α :=
  { s with data := fun k => (s.data k).filter fun it => !(it.exp < now) }

end StateCache

/-- A call on the cache; `cleanup` is a sweep of the background loop. -/
inductive Op (α : Type)
  | put (state : Str) (v : α)
  | get (state : Str)
  | del (state : Str)
  | cleanup

namespace StateCache

def apply (s : StateCache α) (now : Int) : Op α → Option (Option α) × StateCache α
  | .put state v => (none, s.put now state v)
  | .get state => let (r, s') := s.get now state; (some r, s')
  | .del state => (none, s.del state)
  | .cleanup => (none, s.cleanup now)

def run (s : StateCache α) : List (Int × Op α) → List (Option α)
  | [] => []
  | (now, op) :: es => (s.apply now op).1.toList ++ (s.apply now op).2.run es

end StateCache

def Op.isCleanup : Op α → Bool
  | .cleanup => true
  | _ => false

def Op.query : Op α → Option Str
  | .get state => some state
  | _ => none

def Op.writes (state : Str) : Op α → Bool
  | .put k _ | .del k => k = state
  | _ => false

/-- The latest `Put` or `Del` of `state` in a history. -/
def lastWrite (hist : List (Int × Op α)) (state : Str) : Option (Int × Op α) :=
  hist.reverse.find? (·.2.writes state)

/-- The TTL map: `Get` at `t` finds the data of the latest write if it is a `Put` at `p ≥ t - ttl`. -/
def ttlLookup (ttl : Int) (hist : List (Int × Op α)) (state : Str) (t : Int) : Option α :=
  match lastWrite hist state with
  | some (p, .put _ v) => if t ≤ p + ttl then some v else none
  | _ => none

def ttlGets (ttl : Int) (past : List (Int × Op α)) : List (Int × Op α) → List (Option α)
  | [] => []
  | (t, op) :: es =>
    (op.query.map fun state => ttlLookup ttl past state t).toList ++ ttlGets ttl (past ++ [(t, op)]) es

/-- An entry holds the latest `Put`'s data and expiry, or is gone and that `Put` expired. -/
structure Agrees (ttl now : Int) (e : Option (Item α)) (w : Option (Int × Op α)) : Prop where
  found : ∀ it ∈ e, ∃ p k, w = some (p, .put k it.v) ∧ it.exp = p + ttl
  expired : e = none → ∀ p k v, w = some (p, .put k v) → p + ttl < now

def Refines (s : StateCache α) (hist : List (Int × Op α)) (now : Int) : Prop :=
  ∀ k, Agrees s.ttl now (s.data k) (lastWrite hist k)

theorem lastWrite_append (hist : List (Int × Op α)) (e : Int × Op α) (k : Str) :
    lastWrite (hist ++ [e]) k = if e.2.writes k then some e else lastWrite hist k := by
  simp only [lastWrite, List.reverse_append, List.reverse_singleton, List.singleton_append,
    List.find?_cons]
  split <;> simp_all

theorem Agrees.mono {ttl now now' : Int} {e : Option (Item α)} {w : Option (Int × Op α)}
    (h : Agrees ttl now e w) (hn : now ≤ now') : Agrees ttl now' e w :=
  ⟨h.found, fun he p k v hw => lt_of_lt_of_le (h.expired he p k v hw) hn⟩

theorem agrees_none_of_not_put {ttl now : Int} {w : Option (Int × Op α)}
    (hw : ∀ p k v, w ≠ some (p, .put k v)) : Agrees ttl now none w :=
  ⟨by simp, fun _ p k v h => absurd h (hw p k v)⟩

theorem get_fst_eq_ttlLookup {s : StateCache α} {hist : List (Int × Op α)} {now t : Int}
    {k : Str} (h : Agrees s.ttl now (s.data k) (lastWrite hist k)) (ht : now ≤ t) :
    (s.get t k).1 = ttlLookup s.ttl hist k t := by
  unfold StateCache.get ttlLookup
  cases he : s.data k with
  | some it =>
    obtain ⟨p, k', hw, hexp⟩ := h.found it (by simp [he])
    rw [hw]
    by_cases hlt : it.exp < t
    · simp [hlt, show ¬ t ≤ p + s.ttl by omega]
    · simp [hlt, show t ≤ p + s.ttl by omega]
  | none =>
    rcases hw : lastWrite hist k with _ | ⟨p, _ | _ | _ | _⟩ <;> try rfl
    rename_i k' v
    simp [show ¬ t ≤ p + s.ttl from
      not_le.mpr (lt_of_lt_of_le (h.expired he p k' v hw) ht)]

theorem Agrees.drop_expired {ttl now t : Int} {it : Item α} {w : Option (Int × Op α)}
    (h : Agrees ttl now (some it) w) (hexp : it.exp < t) : Agrees ttl t none w := by
  obtain ⟨p, k, hw, he⟩ := h.found it rfl
  refine ⟨by simp, fun _ p' k' v hw' => ?_⟩
  rw [hw] at hw'
  cases hw'
  omega

theorem lastWrite_append_of_not_writes (hist : List (Int × Op α)) {e : Int × Op α} {k : Str}
    (he : e.2.writes k = false) : lastWrite (hist ++ [e]) k = lastWrite hist k := by
  simp [lastWrite_append, he]

namespace StateCache

theorem get_ttl (s : StateCache α) (t : Int) (k : Str) : (s.get t k).2.ttl = s.ttl := by
  unfold get
  split
  · rfl
  · split <;> rfl

@[simp] theorem apply_ttl (s : StateCache α) (t : Int) (op : Op α) : (s.apply t op).2.ttl = s.ttl := by
  cases op with
  | get k => exact get_ttl s t k
  | _ => rfl

theorem apply_fst (s : StateCache α) (t : Int) (op : Op α) :
    (s.apply t op).1 = op.query.map fun k => (s.get t k).1 := by
  cases op <;> rfl

end StateCache

open StateCache in
theorem Refines.apply {s : StateCache α} {hist : List (Int × Op α)} {now t : Int}
    (h : Refines s hist now) (ht : now ≤ t) (op : Op α) :
    Refines (s.apply t op).2 (hist ++ [(t, op)]) t := by
  intro k'
  rw [apply_ttl]
  cases op with
  | put k v =>
    by_cases hk : k' = k
    · subst hk
      simp only [StateCache.apply, put, Function.update_same, lastWrite_append, Op.writes,
        decide_True, if_true]
      exact ⟨fun it hit => by cases Option.mem_some_iff.mp hit; exact ⟨t, k', rfl, rfl⟩, by simp⟩
    · simp only [StateCache.apply, put, Function.update_noteq hk]
      rw [lastWrite_append_of_not_writes _ (by simp [Op.writes, Ne.symm hk])]
      exact (h k').mono ht
  | get k =>
    rw [lastWrite_append_of_not_writes (e := (t, .get k)) _ rfl]
    simp only [StateCache.apply, StateCache.get]
    cases hd : s.data k with
    | none => simpa using (h k').mono ht
    | some it =>
      by_cases hexp : it.exp < t
      · simp only [hexp, if_true]
        by_cases hk : k' = k
        · subst hk
          simpa using (hd ▸ h k').drop_expired hexp
        · simpa [Function.update_noteq hk] using (h k').mono ht
      · simpa [hexp] using (h k').mono ht
  | del k =>
    by_cases hk : k' = k
    · subst hk
      simp only [StateCache.apply, del, Function.update_same, lastWrite_append, Op.writes,
        decide_True, if_true]
      exact agrees_none_of_not_put (by simp)
    · simp only [StateCache.apply, del, Function.update_noteq hk]
      rw [lastWrite_append_of_not_writes _ (by simp [Op.writes, Ne.symm hk])]
      exact (h k').mono ht
  | cleanup =>
    rw [lastWrite_append_of_not_writes (e := (t, .cleanup)) _ rfl]
    simp only [StateCache.apply, cleanup]
    cases hd : s.data k' with
    | none => simpa [hd] using (h k').mono ht
    | some it =>
      by_cases hexp : it.exp < t
      · simpa [Option.filter, hexp] using (hd ▸ h k').drop_expired hexp
      · simpa [Option.filter, hexp] using hd ▸ (h k').mono ht

theorem refines_newStateCache (ttl now : Int) : Refines (newStateCache ttl : StateCache α) [] now :=
  fun _ => agrees_none_of_not_put (by simp [lastWrite])

theorem run_eq_ttlGets (es : List (Int × Op α)) : ∀ (s : StateCache α) (past : List (Int × Op α))
    (now : Int), Refines s past now → (now :: es.map Prod.fst).Pairwise (· ≤ ·) →
    s.run es = ttlGets s.ttl past es := by
  induction es with
  | nil => intros; rfl
  | cons e es ih =>
    obtain ⟨t, op⟩ := e
    intro s past now h hes
    have ht : now ≤ t := List.rel_of_pairwise_cons hes (List.mem_cons_self _ _)
    have hget : (fun k => (s.get t k).1) = fun k => ttlLookup s.ttl past k t :=
      funext fun k => get_fst_eq_ttlLookup (h k) ht
    rw [StateCache.run, ttlGets, StateCache.apply_fst, hget,
      ih _ _ t (h.apply ht op) (List.pairwise_cons.mp hes).2, StateCache.apply_ttl]

theorem ttlGets_congr (ttl : Int) (es : List (Int × Op α)) : ∀ past₁ past₂ : List (Int × Op α),
    (∀ k, lastWrite past₁ k = lastWrite past₂ k) → ttlGets ttl past₁ es = ttlGets ttl past₂ es := by
  induction es with
  | nil => intros; rfl
  | cons e es ih =>
    intro past₁ past₂ h
    rw [ttlGets, ttlGets, ih (past₁ ++ [e]) (past₂ ++ [e]) fun k => by simp [lastWrite_append, h]]
    simp only [ttlLookup, h]

/-- Sweeps write nothing, so the TTL map's answers ignore them. -/
theorem ttlGets_filter_cleanup (ttl : Int) (es : List (Int × Op α)) : ∀ past : List (Int × Op α),
    ttlGets ttl past (es.filter fun e => !e.2.isCleanup) = ttlGets ttl past es := by
  induction es with
  | nil => intros; rfl
  | cons e es ih =>
    obtain ⟨t, op⟩ := e
    intro past
    cases op with
    | cleanup =>
      rw [List.filter_cons_of_neg (by simp [Op.isCleanup]), ih, ttlGets]
      exact ttlGets_congr ttl es _ _ fun k =>
        (lastWrite_append_of_not_writes (e := (t, .cleanup)) _ rfl).symm
    | _ => rw [List.filter_cons_of_pos (by simp [Op.isCleanup]), ttlGets, ttlGets, ih]

theorem newStateCache_run (ttl : Int) (es : List (Int × Op α))
    (hes : (es.map Prod.fst).Pairwise (· ≤ ·)) :
    (newStateCache ttl : StateCache α).run es = ttlGets (newStateCache ttl : StateCache α).ttl [] es := by
  cases es with
  | nil => rfl
  | cons e es =>
    refine run_eq_ttlGets _ _ [] e.1 (refines_newStateCache ttl e.1) (.cons (fun b hb => ?_) hes)
    rcases List.mem_cons.mp hb with rfl | hb
    · exact le_refl _
    · exact List.rel_of_pairwise_cons hes hb

theorem stateCache_refines_ttlMap (ttl : Int) (es : List (Int × Op α))
    (hes : (es.map Prod.fst).Pairwise (· ≤ ·)) :
    (newStateCache ttl).run es = ttlGets (if ttl ≤ 0 then defaultTtl else ttl) [] es ∧
    ∀ es' : List (Int × Op α), (es'.map Prod.fst).Pairwise (· ≤ ·) →
      es'.filter (fun e => !e.2.isCleanup) = es.filter (fun e => !e.2.isCleanup) →
      (newStateCache ttl).run es' = (newStateCache ttl).run es := by
  refine ⟨newStateCache_run ttl es hes, fun es' hes' hf => ?_⟩
  rw [newStateCache_run ttl es' hes', newStateCache_run ttl es hes, ← ttlGets_filter_cleanup, hf,
    ttlGets_filter_cleanup]

theorem stateCache_refines_ttlMap_expiry :
    let es : List (Int × Op Nat) := [(0, .put "s".toList 7), (10, .get "s".toList),
      (11, .cleanup), (11, .get "s".toList), (12, .put "s".toList 8), (13, .del "s".toList),
      (14, .get "s".toList)]
    (es.map Prod.fst).Pairwise (· ≤ ·) ∧
      ((newStateCache 10).run es = ttlGets (if (10 : Int) ≤ 0 then defaultTtl else 10) [] es ∧
      ∀ es' : List (Int × Op Nat), (es'.map Prod.fst).Pairwise (· ≤ ·) →
        es'.filter (fun e => !e.2.isCleanup) = es.filter (fun e => !e.2.isCleanup) →
        (newStateCache 10).run es' = (newStateCache 10).run es) :=
  ⟨by decide, stateCache_refines_ttlMap 10 _ (by decide)⟩

/-- A `Get` at the expiry instant still finds the data, one after it does not, sweep or no sweep. -/
example : (newStateCache 10 : StateCache Nat).run [(0, .put "s".toList 7), (10, .get "s".toList),
    (11, .cleanup), (11, .get "s".toList), (12, .put "s".toList 8), (13, .del "s".toList),
    (14, .get "s".toList)] = [some 7, none, none] := by decide

end Authkit.Oidc
