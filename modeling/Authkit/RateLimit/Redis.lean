import Authkit.RateLimit.Memory

namespace Authkit.RateLimit.Redis

/-- Members with their scores; `float64(now)` is exact for every ms timestamp below 2^53. -/
abbrev ZSet := List (Int × Int)

/-- A key: its sorted set, and the instant in ms after which it has expired. -/
structure Entry where
  zset : ZSet
  expireAt : Option Int
  deriving DecidableEq, Repr

abbrev Store := Str → Option Entry

/-- The entry under `k` at server time `now`: a key is gone once `now` is past its expiry. -/
def lookup (s : Store) (now : Int) (k : Str) : Option Entry :=
  match s k with
  | some e => if e.expireAt.any (· < now) then none else some e
  | none => none

/-- Store `z` under `k`; Redis deletes a sorted set that becomes empty. -/
def put (s : Store) (k : Str) (z : ZSet) (expireAt : Option Int) : Store :=
  Function.update s k (if z = [] then none else some ⟨z, expireAt⟩)

/-- `ZADD k score member`: a new member is added, an existing one only gets the new score. -/
def zadd (s : Store) (now : Int) (k : Str) (score member : Int) : Store :=
  let e := (lookup s now k).getD ⟨[], none⟩
  let z := if e.zset.any (·.1 == member) then e.zset.map fun m => if m.1 = member then (member, score) else m
    else e.zset ++ [(member, score)]
  put s k z e.expireAt

def zremRangeByScore (s : Store) (now : Int) (k : Str) (lo hi : Int) : Store :=
  match lookup s now k with
  | some e => put s k (e.zset.filter fun m => !(lo ≤ m.2 && m.2 ≤ hi)) e.expireAt
  | none => Function.update s k none

def zcard (s : Store) (now : Int) (k : Str) : Nat := ((lookup s now k).map (·.zset.length)).getD 0

/-- `EXPIRE k seconds`: a timeout that is already past deletes the key. -/
def expire (s : Store) (now : Int) (k : Str) (seconds : Int) : Store :=
  match lookup s now k with
  | some e => if now + seconds * 1000 ≤ now then Function.update s k none
    else Function.update s k (some { e with expireAt := some (now + seconds * 1000) })
  | none => Function.update s k none

def zrem (s : Store) (now : Int) (k : Str) (member : Int) : Store :=
  match lookup s now k with
  | some e => put s k (e.zset.filter (·.1 != member)) e.expireAt
  | none => Function.update s k none

/-- go-redis `formatSec`: whole seconds, and 1 for a positive duration under a second. -/
def formatSec (d : Int) : Int := if 0 < d ∧ d < 1000000000 then 1 else d.tdiv 1000000000

def maxInt64 : Int := 9223372036854775807

/-- Go's `int64` arithmetic wraps: `x` reduced into `[-2^63, 2^63)`. -/
def toInt64 (x : Int) : Int := (x + 9223372036854775808) % 18446744073709551616 - 9223372036854775808

structure Limiter where
  limits : Str → Option Limit

/-- The `TxPipeline` of `AllowNamed` on the caller's reading `now`, run at server time `srv`. -/
def Limiter.exec (l : Limiter) (s : Store) (srv : Int) (bucket key : Str) (now : Int) :
    Except String Bool × Store × Option Int :=
  if bucket = [] ∨ key = [] then (.error "bucket and key required", s, none)
  else
    let lim := (getLimit l.limits bucket).1
    let start := now - milliseconds lim.window
    let k := limitKey bucket key
    let s := zadd s srv k now now
    let s := zremRangeByScore s srv k 0 start
    let count := zcard s srv k
    let s := expire s srv k (formatSec (toInt64 (lim.window + 1000000000)))
    if lim.limit < count then (.ok false, s, some now) else (.ok true, s, none)

def Limiter.allowNamed (l : Limiter) (s : Store) (srv : Int) (bucket key : Str) (now : Int) :
    Except String Bool × Store :=
  match l.exec s srv bucket key now with
  | (r, s', some m) => (r, zrem s' srv (limitKey bucket key) m)
  | (r, s', none) => (r, s')

/-- The calls of one instance whose clock reads the server's time, each applied atomically. -/
def Limiter.run (l : Limiter) : Store → List Call → List (Except String Bool) × Store
  | s, [] => ([], s)
  | s, c :: cs =>
    let (r, s') := l.allowNamed s c.nowMs c.bucket c.key c.nowMs
    let (rs, s'') := l.run s' cs
    (r :: rs, s'')

end Redis

/-- The in-memory prune keeps a timestamp of `now - W`; `ZREMRANGEBYSCORE key 0 start` drops it. -/
theorem allowNamed_backends_differ_at_window_edge :
    let limits : Str → Option Limit :=
      fun b => if b = "login".toList then some ⟨1, 1000000000⟩ else none
    let calls : List Call :=
      [⟨"login".toList, "user1".toList, 1000⟩, ⟨"login".toList, "user1".toList, 2000⟩]
    ((Memory.new limits).run calls).1 = [.ok true, .ok false] ∧
      ((Redis.Limiter.mk limits).run (fun _ => none) calls).1 = [.ok true, .ok true] := by
  decide

/-- `"%s:%s"` does not separate key from bucket: (`b:c`, `a`) and (`c`, `a:b`) share `a:b:c`. -/
theorem allowNamed_distinct_pairs_interfere :
    let limits : Str → Option Limit :=
      fun b => if b = "default".toList then some ⟨1, minute⟩ else none
    let other : Call := ⟨"b:c".toList, "a".toList, 0⟩
    let first : Call := ⟨"c".toList, "a:b".toList, 1⟩
    limitKey other.bucket other.key = limitKey first.bucket first.key ∧
      ((Memory.new limits).run [other, first]).1 = [.ok true, .ok false] ∧
      ((Memory.new limits).run [first]).1 = [.ok true] ∧
      ((Redis.Limiter.mk limits).run (fun _ => none) [other, first]).1 = [.ok true, .ok false] ∧
      ((Redis.Limiter.mk limits).run (fun _ => none) [first]).1 = [.ok true] := by
  decide

namespace Redis

/-- An instance's transaction, run at server time `now`, or the late `ZREM` of a denied call. -/
inductive Step
  | call (c : Call) (now : Int)
  | remove (i : Nat) (now : Int)

structure System where
  store : Store
  pending : List (Str × Int)

def Limiter.step (l : Limiter) (sys : System) : Step → Option (Except String Bool) × System
  | .call c now =>
    match l.exec sys.store now c.bucket c.key c.nowMs with
    | (r, s, some m) => (some r, ⟨s, sys.pending ++ [(limitKey c.bucket c.key, m)]⟩)
    | (r, s, none) => (some r, ⟨s, sys.pending⟩)
  | .remove i now =>
    match sys.pending[i]? with
    | some (k, m) => (none, ⟨zrem sys.store now k m, sys.pending.eraseIdx i⟩)
    | none => (none, sys)

def Limiter.runSteps (l : Limiter) : System → List Step → List (Except String Bool)
  | _, [] => []
  | sys, st :: sts =>
    let (r, sys') := l.step sys st
    r.toList ++ l.runSteps sys' sts

/-- The second `ZADD` in the same millisecond adds nothing, so both calls are admitted. -/
theorem allowNamed_same_ms_overAdmits :
    let l : Limiter := ⟨fun b => if b = "login".toList then some ⟨1, minute⟩ else none⟩
    let c : Call := ⟨"login".toList, "user1".toList, 1000⟩
    l.runSteps ⟨fun _ => none, []⟩ [.call c 1000, .call c 1000] = [.ok true, .ok true] ∧
      ¬ NeverOverAdmits ⟨1, minute⟩
        (admittedTimes [1000, 1000] (l.runSteps ⟨fun _ => none, []⟩ [.call c 1000, .call c 1000])) := by
  refine ⟨by decide, fun h => ?_⟩
  have := h 1000
  revert this
  decide

def zsetAt (s : Store) (now : Int) (k : Str) : ZSet := ((lookup s now k).map Entry.zset).getD []

/-- The window `AllowNamed` counts: the admitted calls in `(t - W, t]`, the call itself included. -/
def openWindowDecisions (lim : Limit) (admitted : List Int) : List Int → List Bool
  | [] => []
  | t :: ts =>
    let ok := decide ((((admitted ++ [t]).filter (t - milliseconds lim.window < ·)).length : Int) ≤
      lim.limit)
    ok :: openWindowDecisions lim (if ok then admitted ++ [t] else admitted) ts

theorem lookup_put_self (s : Store) (k : Str) (z : ZSet) (x : Option Int) (now : Int) :
    lookup (put s k z x) now k = if z = [] ∨ x.any (· < now) then none else some ⟨z, x⟩ := by
  by_cases hz : z = [] <;> by_cases hx : x.any (· < now) <;> simp [lookup, put, hz, hx]

@[simp] theorem put_put (s : Store) (k : Str) (z z' : ZSet) (x x' : Option Int) :
    put (put s k z x) k z' x' = put s k z' x' := by
  simp [put]

theorem zsetAt_put_self (s : Store) (k : Str) (z : ZSet) (x : Option Int) (now : Int) :
    zsetAt (put s k z x) now k = if x.any (· < now) then [] else z := by
  by_cases hz : z = [] <;> by_cases hx : x.any (· < now) <;> simp [zsetAt, lookup_put_self, hz, hx]

theorem lookup_getD (s : Store) (now : Int) (k : Str) : ∃ x : Option Int, x.any (· < now) = false ∧
    (lookup s now k).getD ⟨[], none⟩ = ⟨zsetAt s now k, x⟩ := by
  unfold zsetAt lookup
  cases hs : s k with
  | none => exact ⟨none, rfl, rfl⟩
  | some e =>
    by_cases h : e.expireAt.any (· < now)
    · exact ⟨none, rfl, by simp [h]⟩
    · exact ⟨e.expireAt, by simpa using h, by simp [h]⟩

theorem tdiv_eq (a b : Int) (hb : 0 ≤ b) : a.tdiv b = if 0 ≤ a then a / b else -((-a) / b) := by
  split_ifs with ha
  · exact Int.tdiv_eq_ediv ha hb
  · rw [← Int.tdiv_eq_ediv (by omega) hb, Int.neg_tdiv, neg_neg]

theorem milliseconds_le_formatSec (w : Int) (hw : w ≤ maxInt64 - 1000000000) :
    milliseconds w ≤ formatSec (toInt64 (w + 1000000000)) * 1000 := by
  unfold milliseconds formatSec toInt64
  unfold maxInt64 at hw
  rw [tdiv_eq _ _ (by decide), tdiv_eq _ _ (by decide)]
  split_ifs <;> omega

theorem exec_eq (l : Limiter) {bucket key : Str} (hb : bucket ≠ []) (hk : key ≠ []) (s : Store)
    (srv t : Int) (hfresh : ∀ m ∈ zsetAt s srv (limitKey bucket key), m.1 ≠ t) :
    l.exec s srv bucket key t =
      let lim := (getLimit l.limits bucket).1
      let z := (zsetAt s srv (limitKey bucket key) ++ [(t, t)]).filter
        fun m => !(0 ≤ m.2 && m.2 ≤ t - milliseconds lim.window)
      let sec := formatSec (toInt64 (lim.window + 1000000000))
      let s' := put s (limitKey bucket key) (if srv + sec * 1000 ≤ srv then [] else z)
        (some (srv + sec * 1000))
      if lim.limit < z.length then (.ok false, s', some t) else (.ok true, s', none) := by
  obtain ⟨x, hx, he⟩ := lookup_getD s srv (limitKey bucket key)
  have hany : (zsetAt s srv (limitKey bucket key)).any (·.1 == t) = false := by
    simpa using hfresh
  simp only [Limiter.exec, hb, hk, or_self, if_false, zadd, he, hany, Bool.false_eq_true,
    zremRangeByScore, lookup_put_self, hx, List.append_eq_nil, List.cons_ne_nil, and_false,
    or_false, if_false, put_put, zcard, expire]
  generalize (zsetAt s srv (limitKey bucket key) ++ [(t, t)]).filter
    (fun m => !(0 ≤ m.2 && m.2 ≤ t - milliseconds (getLimit l.limits bucket).1.window)) = z
  generalize formatSec (toInt64 ((getLimit l.limits bucket).1.window + 1000000000)) = sec
  by_cases h0 : z = [] <;> by_cases hs : srv + sec * 1000 ≤ srv <;> simp [h0, hs, put]

theorem allowNamed_eq (l : Limiter) {bucket key : Str} (hb : bucket ≠ []) (hk : key ≠ [])
    (s : Store) (srv t : Int) (hfresh : ∀ m ∈ zsetAt s srv (limitKey bucket key), m.1 ≠ t) :
    l.allowNamed s srv bucket key t =
      let lim := (getLimit l.limits bucket).1
      let z := (zsetAt s srv (limitKey bucket key) ++ [(t, t)]).filter
        fun m => !(0 ≤ m.2 && m.2 ≤ t - milliseconds lim.window)
      let sec := formatSec (toInt64 (lim.window + 1000000000))
      let z' := if srv + sec * 1000 ≤ srv then [] else z
      if lim.limit < z.length then
        (.ok false, put s (limitKey bucket key) (z'.filter (·.1 != t)) (some (srv + sec * 1000)))
      else (.ok true, put s (limitKey bucket key) z' (some (srv + sec * 1000))) := by
  rw [Limiter.allowNamed, exec_eq l hb hk s srv t hfresh]
  dsimp only
  generalize (zsetAt s srv (limitKey bucket key) ++ [(t, t)]).filter
    (fun m => !(0 ≤ m.2 && m.2 ≤ t - milliseconds (getLimit l.limits bucket).1.window)) = z
  generalize formatSec (toInt64 ((getLimit l.limits bucket).1.window + 1000000000)) = sec
  by_cases hl : (getLimit l.limits bucket).1.limit < z.length
  · simp only [hl, if_true, zrem, lookup_put_self]
    by_cases hs : srv + sec * 1000 ≤ srv
    · simp [hs, put]
    · simp only [if_neg hs]
      by_cases hz : z = [] <;> simp [hz, put, show ¬ srv + sec * 1000 < srv by omega]
  · simp only [hl, if_false]

/-- From `hi` on, the key's live members above `t - w` are the admitted calls above `t - w`. -/
structure Tracks (s : Store) (k : Str) (w : Int) (admitted : List Int) (hi : Int) : Prop where
  admitted_le : ∀ a ∈ admitted, 0 ≤ a ∧ a ≤ hi
  live : ∀ t, hi < t → ∃ zs : List Int, zsetAt s t k = zs.map (fun a => (a, a)) ∧
    (∀ a ∈ zs, 0 ≤ a ∧ a ≤ hi) ∧ zs.filter (t - w < ·) = admitted.filter (t - w < ·)

theorem tracks_empty (k : Str) (w hi : Int) : Tracks (fun _ => none) k w [] hi :=
  ⟨fun a h => absurd h (List.not_mem_nil a), fun _ _ => ⟨[], rfl, fun a h => absurd h (List.not_mem_nil a), rfl⟩⟩

theorem filter_lt_of_le {l l' : List Int} {c c' : Int} (h : l.filter (c < ·) = l'.filter (c < ·))
    (hc : c ≤ c') : l.filter (c' < ·) = l'.filter (c' < ·) := by
  have hsub : ∀ l : List Int, (l.filter (c < ·)).filter (c' < ·) = l.filter (c' < ·) := fun l => by
    rw [List.filter_filter]
    exact List.filter_congr fun a _ => by by_cases h : c' < a <;> simp [h]; omega
  rw [← hsub l, h, hsub]

theorem filter_diag (l : List Int) (hl : ∀ a ∈ l, 0 ≤ a) (c : Int) :
    (l.map fun a => (a, a)).filter (fun m => !(0 ≤ m.2 && m.2 ≤ c)) =
      (l.filter (c < ·)).map fun a => (a, a) := by
  rw [List.filter_map]
  congr 1
  exact List.filter_congr fun a ha => by simp [hl a ha, ← decide_not]

theorem tracks_put {s : Store} {k : Str} {w t sec : Int} {adm zs : List Int}
    (hw : w ≤ sec * 1000) (hadm : ∀ a ∈ adm, 0 ≤ a ∧ a ≤ t) (hzs : ∀ a ∈ zs, 0 ≤ a ∧ a ≤ t)
    (hf : zs.filter (t - w < ·) = adm.filter (t - w < ·)) :
    Tracks (put s k (if t + sec * 1000 ≤ t then [] else zs.map fun a => (a, a))
      (some (t + sec * 1000))) k w adm t := by
  refine ⟨hadm, fun t' ht' => ?_⟩
  rw [zsetAt_put_self, Option.any_some]
  by_cases he : t + sec * 1000 < t'
  · refine ⟨[], by simp [he], by simp, ?_⟩
    exact (List.filter_eq_nil_iff.mpr fun a ha => by have := hadm a ha; simp; omega).symm
  · simp only [decide_eq_false he, Bool.false_eq_true, if_false]
    rw [if_neg (by omega)]
    exact ⟨zs, rfl, hzs, filter_lt_of_le hf (by omega)⟩

theorem bounded_append {l : List Int} {t : Int} (h : ∀ a ∈ l, 0 ≤ a ∧ a < t) (ht : 0 ≤ t) :
    ∀ a ∈ l ++ [t], 0 ≤ a ∧ a ≤ t := by
  simp only [List.mem_append, List.mem_singleton]
  rintro a (ha | rfl)
  · exact (h a ha).imp_right le_of_lt
  · exact ⟨ht, le_rfl⟩

theorem Tracks.allowNamed (l : Limiter) {bucket key : Str} (hb : bucket ≠ []) (hk : key ≠ [])
    {s : Store} {adm : List Int} {hi t : Int}
    (h : Tracks s (limitKey bucket key) (milliseconds (getLimit l.limits bucket).1.window) adm hi)
    (ht : hi < t) (ht0 : 0 ≤ t) (hwin : (getLimit l.limits bucket).1.window ≤ maxInt64 - 1000000000) :
    let lim := (getLimit l.limits bucket).1
    let ok := decide ((((adm ++ [t]).filter (t - milliseconds lim.window < ·)).length : Int) ≤
      lim.limit)
    (l.allowNamed s t bucket key t).1 = .ok ok ∧
      Tracks (l.allowNamed s t bucket key t).2 (limitKey bucket key) (milliseconds lim.window)
        (if ok then adm ++ [t] else adm) t := by
  dsimp only
  obtain ⟨zs, hz, hzs, hf⟩ := h.live t ht
  have hfresh : ∀ m ∈ zsetAt s t (limitKey bucket key), m.1 ≠ t := by
    rw [hz]
    intro m hm
    obtain ⟨a, ha, rfl⟩ := List.mem_map.mp hm
    have := hzs a ha
    show a ≠ t
    omega
  have hadm : ∀ a ∈ adm, 0 ≤ a ∧ a < t := fun a ha => by have := h.admitted_le a ha; omega
  have hzs' := bounded_append (fun a ha => by have := hzs a ha; omega) ht0
  have hadm' := bounded_append hadm ht0
  rw [allowNamed_eq l hb hk s t t hfresh, hz]
  dsimp only
  have hw := milliseconds_le_formatSec _ hwin
  generalize (getLimit l.limits bucket).1 = lim at hf hw ⊢
  generalize milliseconds lim.window = w at hf hw ⊢
  generalize formatSec (toInt64 (lim.window + 1000000000)) = sec at hw ⊢
  have hkept : (zs ++ [t]).filter (t - w < ·) = (adm ++ [t]).filter (t - w < ·) := by
    rw [List.filter_append, List.filter_append, hf]
  rw [show zs.map (fun a => (a, a)) ++ [(t, t)] = (zs ++ [t]).map fun a => (a, a) by simp,
    filter_diag _ (fun a ha => (hzs' a ha).1), List.length_map, hkept]
  by_cases hok : (((adm ++ [t]).filter (t - w < ·)).length : Int) ≤ lim.limit
  · rw [if_neg (by omega), decide_eq_true hok, if_pos rfl]
    exact ⟨rfl, tracks_put hw hadm' (fun a ha => hadm' a (List.mem_of_mem_filter ha))
      (by rw [List.filter_filter]; simp)⟩
  · have hdrop : ((adm ++ [t]).filter (t - w < ·)).filter
        ((fun m : Int × Int => m.1 != t) ∘ fun a => (a, a)) = adm.filter (t - w < ·) := by
      rw [List.filter_filter, List.filter_append, List.filter_singleton]
      simp only [Function.comp, bne_self_eq_false, Bool.false_and, cond_false, List.append_nil]
      exact List.filter_congr fun a ha => by have := hadm a ha; simp; omega
    rw [if_pos (by omega)]
    simp only [decide_eq_false hok, Bool.false_eq_true, if_false]
    rw [apply_ite (List.filter _), List.filter_nil, List.filter_map, hdrop]
    exact ⟨trivial, tracks_put hw (fun a ha => (hadm a ha).imp_right le_of_lt)
      (fun a ha => (hadm a (List.mem_of_mem_filter ha)).imp_right le_of_lt)
      (by rw [List.filter_filter]; simp)⟩

theorem Limiter.run_cons (l : Limiter) (s : Store) (c : Call) (cs : List Call) :
    (l.run s (c :: cs)).1 =
      (l.allowNamed s c.nowMs c.bucket c.key c.nowMs).1 ::
        (l.run (l.allowNamed s c.nowMs c.bucket c.key c.nowMs).2 cs).1 :=
  rfl

theorem run_eq_openWindowDecisions (l : Limiter) {bucket key : Str} (hb : bucket ≠ []) (hk : key ≠ [])
    (hwin : (getLimit l.limits bucket).1.window ≤ maxInt64 - 1000000000) (ts : List Int) : ∀ (s : Store) (adm : List Int) (hi : Int),
    Tracks s (limitKey bucket key) (milliseconds (getLimit l.limits bucket).1.window) adm hi →
    (hi :: ts).Pairwise (· < ·) → (∀ t ∈ ts, 0 ≤ t) →
    (l.run s (ts.map (Call.mk bucket key))).1 =
      (openWindowDecisions (getLimit l.limits bucket).1 adm ts).map .ok := by
  induction ts with
  | nil => intros; rfl
  | cons t ts ih =>
    intro s adm hi h hts hpos
    obtain ⟨hr, h'⟩ := h.allowNamed l hb hk (List.rel_of_pairwise_cons hts (List.mem_cons_self _ _))
      (hpos t (List.mem_cons_self _ _)) hwin
    rw [List.map_cons, Limiter.run_cons, hr, openWindowDecisions, List.map_cons,
      ih _ _ _ h' (List.pairwise_cons.mp hts).2 fun u hu => hpos u (List.mem_cons_of_mem t hu)]

theorem openWindowDecisions_eraseIdx (lim : Limit) (ts : List Int) : ∀ (adm : List Int) (i : Nat),
    (openWindowDecisions lim adm ts)[i]? = some false →
    openWindowDecisions lim adm (ts.eraseIdx i) = (openWindowDecisions lim adm ts).eraseIdx i := by
  induction ts with
  | nil => intros; rfl
  | cons t ts ih =>
    intro adm i h
    cases i with
    | zero =>
      simp only [openWindowDecisions, List.getElem?_cons_zero, Option.some.injEq] at h
      simp only [openWindowDecisions, h, List.eraseIdx_cons_zero, Bool.false_eq_true, if_false]
    | succ i =>
      simp only [openWindowDecisions, List.getElem?_cons_succ] at h
      simp only [List.eraseIdx_cons_succ, openWindowDecisions]
      rw [ih _ i h]

theorem allowNamed_openWindow (limits : Str → Option Limit) {bucket key : Str}
    (hb : bucket ≠ []) (hk : key ≠ []) (hwin : (getLimit limits bucket).1.window ≤ maxInt64 - 1000000000)
    (ts : List Int) (hts : ts.Pairwise (· < ·)) (hpos : ∀ t ∈ ts, 0 ≤ t) :
    ((Limiter.mk limits).run (fun _ => none) (ts.map (Call.mk bucket key))).1 =
        (openWindowDecisions (getLimit limits bucket).1 [] ts).map .ok ∧
      ∀ i, ((Limiter.mk limits).run (fun _ => none) (ts.map (Call.mk bucket key))).1[i]? =
          some (.ok false) →
        ((Limiter.mk limits).run (fun _ => none) ((ts.eraseIdx i).map (Call.mk bucket key))).1 =
          ((Limiter.mk limits).run (fun _ => none) (ts.map (Call.mk bucket key))).1.eraseIdx i := by
  have hrun : ∀ us : List Int, us.Pairwise (· < ·) → (∀ t ∈ us, 0 ≤ t) →
      ((Limiter.mk limits).run (fun _ => none) (us.map (Call.mk bucket key))).1 =
        (openWindowDecisions (getLimit limits bucket).1 [] us).map .ok := fun us hus hpos =>
    run_eq_openWindowDecisions _ hb hk hwin us _ [] (-1) (tracks_empty _ _ _)
      (List.pairwise_cons.mpr ⟨fun u hu => by have := hpos u hu; omega, hus⟩) hpos
  have hsub := List.eraseIdx_sublist ts
  refine ⟨hrun ts hts hpos, fun i hi => ?_⟩
  rw [hrun ts hts hpos] at hi ⊢
  rw [hrun _ (hts.sublist (hsub i)) fun u hu => hpos u ((hsub i).subset hu), ← map_eraseIdx,
    openWindowDecisions_eraseIdx _ _ _ _ (by simpa using hi)]

theorem allowNamed_openWindow_login :
    ((Limiter.mk fun b => if b = "login".toList then some ⟨2, 1000000000⟩ else none).run
      (fun _ => none) ([1000, 1500, 1800, 2600].map (Call.mk "login".toList "user1".toList))).1 =
      [.ok true, .ok true, .ok false, .ok true] := by
  rw [(allowNamed_openWindow _ (by decide) (by decide) (by decide) _ (by decide) (by decide)).1]
  decide

/-- `Window + time.Second` wraps negative: `EXPIRE` deletes the key; a call counts itself only. -/
theorem allowNamed_of_window_overflow (l : Limiter) {bucket key : Str} (hb : bucket ≠ [])
    (hk : key ≠ []) (hwin : maxInt64 - 1000000000 < (getLimit l.limits bucket).1.window)
    (hmax : (getLimit l.limits bucket).1.window ≤ maxInt64) {s : Store}
    (hs : s (limitKey bucket key) = none) (t : Int) :
    l.allowNamed s t bucket key t = (.ok (decide (1 ≤ (getLimit l.limits bucket).1.limit)), s) := by
  have hz : zsetAt s t (limitKey bucket key) = [] := by simp [zsetAt, lookup, hs]
  have hput : ∀ x, put s (limitKey bucket key) [] x = s := fun _ => by
    simp only [put, if_true]
    exact Function.update_eq_self_iff.mpr hs.symm
  rw [allowNamed_eq l hb hk s t t (by simp [hz]), hz]
  generalize (getLimit l.limits bucket).1 = lim at hwin hmax ⊢
  unfold maxInt64 at hwin hmax
  have hsec : t + formatSec (toInt64 (lim.window + 1000000000)) * 1000 ≤ t := by
    unfold formatSec toInt64
    rw [tdiv_eq _ _ (by decide)]
    split_ifs <;> omega
  have hms : ¬ milliseconds lim.window ≤ 0 := by
    unfold milliseconds
    rw [tdiv_eq _ _ (by decide)]
    split_ifs <;> omega
  by_cases hl : (1 : Int) ≤ lim.limit <;> simp [hsec, hput, hms, hl]

theorem allowNamed_window_overflow_admits (limits : Str → Option Limit) {bucket key : Str}
    (hb : bucket ≠ []) (hk : key ≠ [])
    (hwin : maxInt64 - 1000000000 < (getLimit limits bucket).1.window)
    (hmax : (getLimit limits bucket).1.window ≤ maxInt64) (ts : List Int) :
    ∀ s : Store, s (limitKey bucket key) = none →
      ((Limiter.mk limits).run s (ts.map (Call.mk bucket key))).1 =
        ts.map fun _ => .ok (decide (1 ≤ (getLimit limits bucket).1.limit)) := by
  induction ts with
  | nil => intros; rfl
  | cons t ts ih =>
    intro s hs
    rw [List.map_cons, Limiter.run_cons]
    simp only [allowNamed_of_window_overflow _ hb hk hwin hmax hs, List.map_cons, ih s hs]

theorem allowNamed_window_overflow_admits_max :
    ((Limiter.mk fun b => if b = "login".toList then some ⟨1, maxInt64⟩ else none).run
      (fun _ => none) ([1000, 1001, 1002].map (Call.mk "login".toList "user1".toList))).1 =
      [.ok true, .ok true, .ok true] := by
  rw [allowNamed_window_overflow_admits _ (by decide) (by decide) (by decide) (by decide) _ _ rfl]
  decide

end Authkit.RateLimit.Redis
