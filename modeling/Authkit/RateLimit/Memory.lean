import Authkit.RateLimit.Limit

namespace Authkit.RateLimit.Memory

/-- The in-memory `Limiter`: its limits and, per limit key, the bucket's timestamps. -/
structure Limiter where
  limits : Str → Option Limit
  buckets : Str → Option (List Int)

def new (limits : Str → Option Limit) : Limiter := ⟨limits, fun _ => none⟩

/-- `AllowNamed(bucket, key)` with the clock at `nowMs`: the answer and the limiter after it. -/
def Limiter.allowNamed (l : Limiter) (bucket key : Str) (nowMs : Int) :
    Except String Bool × Limiter :=
  if bucket = [] ∨ key = [] then (.error "bucket and key required", l)
  else
    let lim := (getLimit l.limits bucket).1
    let windowStart := nowMs - milliseconds lim.window
    let k := limitKey bucket key
    let ts := ((l.buckets k).getD []).dropWhile (· < windowStart)
    if lim.limit ≤ ts.length then
      (.ok false, { l with buckets := Function.update l.buckets k (if ts = [] then none else some ts) })
    else
      (.ok true, { l with buckets := Function.update l.buckets k (some (ts ++ [nowMs])) })

/-- The answers to a run of calls, in the order the calls take the lock. -/
def Limiter.run : Limiter → List Call → List (Except String Bool) × Limiter
  | l, [] => ([], l)
  | l, c :: cs =>
    let (r, l') := l.allowNamed c.bucket c.key c.nowMs
    let (rs, l'') := l'.run cs
    (r :: rs, l'')

def Limiter.bucket (l : Limiter) (k : Str) : List Int := (l.buckets k).getD []

def Limiter.setBucket (l : Limiter) (k : Str) (ts : List Int) : Limiter :=
  { l with buckets := Function.update l.buckets k (if ts = [] then none else some ts) }

def Limiter.kept (l : Limiter) (bucket key : Str) (t : Int) : List Int :=
  (l.bucket (limitKey bucket key)).dropWhile (· < t - milliseconds (getLimit l.limits bucket).1.window)

def Limiter.admits (l : Limiter) (bucket key : Str) (t : Int) : Bool :=
  decide (((l.kept bucket key t).length : Int) < (getLimit l.limits bucket).1.limit)

@[simp] theorem Limiter.setBucket_limits (l : Limiter) (k : Str) (ts : List Int) :
    (l.setBucket k ts).limits = l.limits := rfl

@[simp] theorem Limiter.bucket_setBucket (l : Limiter) (k : Str) (ts : List Int) :
    (l.setBucket k ts).bucket k = ts := by
  by_cases h : ts = [] <;> simp [Limiter.setBucket, Limiter.bucket, h]

theorem Limiter.bucket_setBucket_of_ne (l : Limiter) {k k' : Str} (h : k' ≠ k) (ts : List Int) :
    (l.setBucket k ts).bucket k' = l.bucket k' := by
  simp [Limiter.setBucket, Limiter.bucket, Function.update_noteq h]

theorem allowNamed_eq (l : Limiter) {bucket key : Str} (hb : bucket ≠ []) (hk : key ≠ [])
    (t : Int) : l.allowNamed bucket key t =
      if l.admits bucket key t then
        (.ok true, l.setBucket (limitKey bucket key) (l.kept bucket key t ++ [t]))
      else (.ok false, l.setBucket (limitKey bucket key) (l.kept bucket key t)) := by
  simp only [Limiter.allowNamed, hb, hk, or_self, if_false, Limiter.admits, Limiter.kept,
    Limiter.bucket, Limiter.setBucket, decide_eq_true_eq]
  split_ifs <;> first | rfl | omega | simp_all

/-- The sliding window: admitted iff fewer than `limit` admitted calls are at or after `t - W`. -/
def windowDecisions (lim : Limit) (admitted : List Int) : List Int → List Bool
  | [] => []
  | t :: ts =>
    let ok := decide (((admitted.filter (t - milliseconds lim.window ≤ ·)).length : Int) < lim.limit)
    ok :: windowDecisions lim (if ok then admitted ++ [t] else admitted) ts

/-- The bucket holds the admitted timestamps at or above `lo`, sorted and at most `hi`. -/
structure Tracks (stored admitted : List Int) (lo hi : Int) : Prop where
  pruned : ∃ pre, admitted = pre ++ stored ∧ ∀ x ∈ pre, x < lo
  sorted : admitted.Pairwise (· ≤ ·)
  le_hi : ∀ x ∈ admitted, x ≤ hi

theorem tracks_nil (lo hi : Int) : Tracks [] [] lo hi := ⟨⟨[], rfl, by simp⟩, by simp, by simp⟩

/-- On a sorted list the prefix-stopping prune loop drops exactly the entries below the bound. -/
theorem dropWhile_lt_eq_filter {l : List Int} (h : l.Pairwise (· ≤ ·)) (c : Int) :
    l.dropWhile (· < c) = l.filter (c ≤ ·) := by
  induction l with
  | nil => rfl
  | cons x l ih =>
    rw [List.pairwise_cons] at h
    by_cases hx : x < c
    · rw [List.dropWhile_cons_of_pos (by simpa using hx), ih h.2,
        List.filter_cons_of_neg (by simpa using hx)]
    · rw [List.dropWhile_cons_of_neg (by simpa using hx),
        List.filter_cons_of_pos (by simpa using hx), List.filter_eq_self.mpr]
      intro y hy
      simpa using le_trans (not_lt.mp hx) (h.1 y hy)

theorem Tracks.kept {s a : List Int} {lo hi c : Int} (h : Tracks s a lo hi) (hc : lo ≤ c) :
    s.dropWhile (· < c) = a.filter (c ≤ ·) := by
  obtain ⟨pre, rfl, hpre⟩ := h.pruned
  have hnil : pre.filter (c ≤ ·) = [] :=
    List.filter_eq_nil_iff.mpr fun x hx => by simpa using lt_of_lt_of_le (hpre x hx) hc
  rw [dropWhile_lt_eq_filter (h.sorted.sublist (List.sublist_append_right pre s)), List.filter_append,
    hnil, List.nil_append]

theorem Tracks.prune {s a : List Int} {lo hi c t : Int} (h : Tracks s a lo hi) (hc : lo ≤ c)
    (ht : hi ≤ t) : Tracks (s.dropWhile (· < c)) a c t := by
  obtain ⟨pre, rfl, hpre⟩ := h.pruned
  refine ⟨⟨pre ++ s.takeWhile (· < c), by simp, ?_⟩, h.sorted, fun x hx => (h.le_hi x hx).trans ht⟩
  intro x hx
  rcases List.mem_append.mp hx with hx | hx
  · exact lt_of_lt_of_le (hpre x hx) hc
  · simpa using List.mem_takeWhile_imp hx

theorem Tracks.record {s a : List Int} {lo hi : Int} (h : Tracks s a lo hi) :
    Tracks (s ++ [hi]) (a ++ [hi]) lo hi := by
  obtain ⟨pre, rfl, hpre⟩ := h.pruned
  refine ⟨⟨pre, by simp, hpre⟩, List.pairwise_append.mpr ⟨h.sorted, by simp,
    fun x hx y hy => by simpa [List.mem_singleton.mp hy] using h.le_hi x hx⟩, ?_⟩
  intro x hx
  rcases List.mem_append.mp hx with hx | hx
  · exact h.le_hi x hx
  · simp [List.mem_singleton.mp hx]

theorem Limiter.run_cons (l : Limiter) (c : Call) (cs : List Call) :
    (l.run (c :: cs)).1 =
      (l.allowNamed c.bucket c.key c.nowMs).1 :: ((l.allowNamed c.bucket c.key c.nowMs).2.run cs).1 :=
  rfl

theorem run_eq_windowDecisions {bucket key : Str} (hb : bucket ≠ []) (hk : key ≠ [])
    (ts : List Int) : ∀ (l : Limiter) (adm : List Int) (t₀ : Int),
    Tracks (l.bucket (limitKey bucket key)) adm
      (t₀ - milliseconds (getLimit l.limits bucket).1.window) t₀ →
    (t₀ :: ts).Pairwise (· ≤ ·) →
    (l.run (ts.map (Call.mk bucket key))).1 =
      (windowDecisions (getLimit l.limits bucket).1 adm ts).map .ok := by
  induction ts with
  | nil => intros; rfl
  | cons t ts ih =>
    intro l adm t₀ hinv hts
    have ht₀ : t₀ ≤ t := List.rel_of_pairwise_cons hts (List.mem_cons_self _ _)
    have hinv' := hinv.prune (c := t - milliseconds (getLimit l.limits bucket).1.window)
      (by omega) ht₀
    have hkept : l.kept bucket key t =
        adm.filter (t - milliseconds (getLimit l.limits bucket).1.window ≤ ·) :=
      hinv.kept (by omega)
    have hts' : (t :: ts).Pairwise (· ≤ ·) := (List.pairwise_cons.mp hts).2
    rw [List.map_cons, Limiter.run_cons, allowNamed_eq l hb hk, windowDecisions]
    by_cases ha : l.admits bucket key t
    · have hok : decide (((adm.filter (t - milliseconds (getLimit l.limits bucket).1.window ≤ ·)).length
          : Int) < (getLimit l.limits bucket).1.limit) = true := by
        rw [← hkept]; exact ha
      simp only [ha, if_true, hok, List.map_cons]
      exact congrArg _ (ih _ _ t (by simpa [Limiter.kept] using hinv'.record) hts')
    · have hok : decide (((adm.filter (t - milliseconds (getLimit l.limits bucket).1.window ≤ ·)).length
          : Int) < (getLimit l.limits bucket).1.limit) = false := by
        rw [← hkept]; simpa [Limiter.admits] using ha
      simp only [ha, hok, Bool.false_eq_true, if_false, List.map_cons]
      exact congrArg _ (ih _ _ t (by simpa [Limiter.kept] using hinv') hts')

theorem windowDecisions_eraseIdx (lim : Limit) (ts : List Int) : ∀ (adm : List Int) (i : Nat),
    (windowDecisions lim adm ts)[i]? = some false →
    windowDecisions lim adm (ts.eraseIdx i) = (windowDecisions lim adm ts).eraseIdx i := by
  induction ts with
  | nil => intros; rfl
  | cons t ts ih =>
    intro adm i h
    cases i with
    | zero =>
      simp only [windowDecisions, List.getElem?_cons_zero, Option.some.injEq] at h
      simp only [windowDecisions, h, List.eraseIdx_cons_zero, Bool.false_eq_true, if_false]
    | succ i =>
      simp only [windowDecisions, List.getElem?_cons_succ] at h
      simp only [List.eraseIdx_cons_succ, windowDecisions]
      rw [ih _ i h]

theorem allowNamed_slidingWindow (limits : Str → Option Limit) {bucket key : Str}
    (hb : bucket ≠ []) (hk : key ≠ []) (ts : List Int) (hts : ts.Pairwise (· ≤ ·)) :
    ((new limits).run (ts.map (Call.mk bucket key))).1 =
        (windowDecisions (getLimit limits bucket).1 [] ts).map .ok ∧
      ∀ i, ((new limits).run (ts.map (Call.mk bucket key))).1[i]? = some (.ok false) →
        ((new limits).run ((ts.eraseIdx i).map (Call.mk bucket key))).1 =
          ((new limits).run (ts.map (Call.mk bucket key))).1.eraseIdx i := by
  have hrun : ∀ us : List Int, us.Pairwise (· ≤ ·) →
      ((new limits).run (us.map (Call.mk bucket key))).1 =
        (windowDecisions (getLimit limits bucket).1 [] us).map .ok := by
    intro us hus
    cases us with
    | nil => rfl
    | cons u us =>
      exact run_eq_windowDecisions hb hk _ (new limits) [] u (tracks_nil _ _)
        (List.pairwise_cons.mpr ⟨fun x hx => (List.mem_cons.mp hx).elim (fun h => h ▸ le_rfl)
          (List.rel_of_pairwise_cons hus), hus⟩)
  refine ⟨hrun ts hts, fun i hi => ?_⟩
  rw [hrun ts hts] at hi ⊢
  rw [hrun _ (hts.sublist (List.eraseIdx_sublist ts i)), ← map_eraseIdx,
    windowDecisions_eraseIdx _ _ _ _ (by simpa using hi)]

/-- The spec's example: five logins a minute pass, the sixth is denied, one 61 s later passes. -/
theorem allowNamed_slidingWindow_login :
    ((new fun b => if b = "login".toList then some ⟨5, minute⟩ else none).run
      ([0, 1000, 2000, 3000, 4000, 5000, 61000].map (Call.mk "login".toList "user1".toList))).1 =
      [.ok true, .ok true, .ok true, .ok true, .ok true, .ok false, .ok true] := by
  rw [(allowNamed_slidingWindow _ (by decide) (by decide) _ (by decide)).1]
  decide

theorem windowDecisions_neverOverAdmits (lim : Limit) (ts : List Int) : ∀ adm : List Int,
    NeverOverAdmits lim adm →
    NeverOverAdmits lim (adm ++ admittedTimes ts ((windowDecisions lim adm ts).map .ok)) := by
  induction ts with
  | nil => simp [admittedTimes]
  | cons t ts ih =>
    intro adm h
    by_cases hok : ((adm.filter (t - milliseconds lim.window ≤ ·)).length : Int) < lim.limit
    · simp only [windowDecisions, decide_eq_true hok, if_true, List.map_cons,
        admittedTimes_cons_ok_true, ← List.singleton_append (l := admittedTimes ts _),
        ← List.append_assoc]
      exact ih _ (h.record hok)
    · simp only [windowDecisions, decide_eq_false hok, Bool.false_eq_true, if_false, List.map_cons,
        admittedTimes_cons_ok_false]
      exact ih adm h

theorem allowNamed_neverOverAdmits (limits : Str → Option Limit) {bucket key : Str}
    (hb : bucket ≠ []) (hk : key ≠ []) (ts : List Int) (hts : ts.Pairwise (· ≤ ·))
    (hl : 0 ≤ (getLimit limits bucket).1.limit) :
    NeverOverAdmits (getLimit limits bucket).1
      (admittedTimes ts ((new limits).run (ts.map (Call.mk bucket key))).1) := by
  rw [(allowNamed_slidingWindow limits hb hk ts hts).1]
  simpa using windowDecisions_neverOverAdmits _ ts [] (neverOverAdmits_nil _ hl)

theorem allowNamed_neverOverAdmits_login :
    let limits : Str → Option Limit := fun b => if b = "login".toList then some ⟨5, minute⟩ else none
    NeverOverAdmits (getLimit limits "login".toList).1 (admittedTimes [0, 1000, 2000, 3000, 61000]
      ((new limits).run ([0, 1000, 2000, 3000, 61000].map (Call.mk "login".toList "user1".toList))).1) :=
  allowNamed_neverOverAdmits _ (by decide) (by decide) _ (by decide) (by decide)

/-- A reading taken before the lock can reach it late, after a later call has pruned the bucket. -/
theorem allowNamed_out_of_order_overAdmits :
    let limits : Str → Option Limit := fun _ => some ⟨2, 1000000000⟩
    let ts : List Int := [1000, 1001, 2050, 1500]
    ((new limits).run (ts.map (Call.mk "login".toList "user1".toList))).1 =
        [.ok true, .ok true, .ok true, .ok true] ∧
      ¬ NeverOverAdmits ⟨2, 1000000000⟩
        (admittedTimes ts ((new limits).run (ts.map (Call.mk "login".toList "user1".toList))).1) := by
  refine ⟨by decide, fun h => ?_⟩
  have := h 1500
  revert this
  decide

end Authkit.RateLimit.Memory
