import Authkit.RateLimit.Redis

namespace Authkit.RateLimit.Redis

def Step.time : Step → Int
  | .call _ now => now
  | .remove _ now => now

/-- A call's clock reading is within `ε` ms of the server's time when its transaction runs. -/
def Step.Skewed (ε : Int) : Step → Prop
  | .call c now => now - ε ≤ c.nowMs ∧ c.nowMs ≤ now + ε
  | .remove _ _ => True

instance (ε : Int) : DecidablePred (Step.Skewed ε)
  | .call _ _ => inferInstanceAs (Decidable (_ ∧ _))
  | .remove _ _ => inferInstanceAs (Decidable True)

def callsOf (steps : List Step) : List Call :=
  steps.filterMap fun
    | .call c _ => some c
    | .remove _ _ => none

def callsOn (bucket key : Str) (steps : List Step) : List Call :=
  (callsOf steps).filter fun c => c.bucket = bucket ∧ c.key = key

/-- The readings of the calls on `(bucket, key)` that a run admits, given all of its answers. -/
def admittedOn (bucket key : Str) (cs : List Call) (rs : List (Except String Bool)) : List Int :=
  (cs.zip rs).filterMap fun p =>
    if p.1.bucket = bucket ∧ p.1.key = key ∧ p.2 = .ok true then some p.1.nowMs else none

/-- At most `limit` admitted readings in every window `(t - width, t]`. -/
def NeverOverAdmitsOpen (width limit : Int) (admitted : List Int) : Prop :=
  ∀ t, ((admitted.filter fun a => t - width < a ∧ a ≤ t).length : Int) ≤ limit

theorem neverOverAdmitsOpen_nil (width : Int) {limit : Int} (h : 0 ≤ limit) :
    NeverOverAdmitsOpen width limit [] :=
  fun _ => by simpa using h

theorem NeverOverAdmitsOpen.record {w n : Int} {adm : List Int} (h : NeverOverAdmitsOpen w n adm)
    {t : Int} (hc : (((adm ++ [t]).filter fun a => t - w < a ∧ a < t + w).length : Int) ≤ n) :
    NeverOverAdmitsOpen w n (adm ++ [t]) := by
  intro s
  by_cases hs : s - w < t ∧ t ≤ s
  · have hle : ((adm ++ [t]).filter fun a => s - w < a ∧ a ≤ s).length ≤
        ((adm ++ [t]).filter fun a => t - w < a ∧ a < t + w).length := by
      simp only [← List.countP_eq_length_filter]
      exact List.countP_mono_left fun a _ ha => by simp at ha ⊢; omega
    omega
  · have h0 : ([t].filter fun a => s - w < a ∧ a ≤ s).length = 0 := by
      rw [List.filter_singleton, decide_eq_false hs]; rfl
    have := h s
    rw [List.filter_append, List.length_append]
    omega

/-! Frame lemmas: each command of the pipeline writes its own key only. -/

section Frame

variable {s : Store} {k k' : Str} (h : k' ≠ k)
include h

theorem zadd_ne (now score member : Int) : zadd s now k score member k' = s k' := by
  simp [zadd, put, Function.update_noteq h]

theorem zremRangeByScore_ne (now lo hi : Int) : zremRangeByScore s now k lo hi k' = s k' := by
  unfold zremRangeByScore; cases lookup s now k <;> simp [put, Function.update_noteq h]

theorem expire_ne (now seconds : Int) : expire s now k seconds k' = s k' := by
  unfold expire; cases lookup s now k <;> (try split_ifs) <;> simp [Function.update_noteq h]

theorem zrem_ne (now member : Int) : zrem s now k member k' = s k' := by
  unfold zrem; cases lookup s now k <;> simp [put, Function.update_noteq h]

end Frame

theorem exec_ne (l : Limiter) (s : Store) {bucket key k : Str} (srv now : Int)
    (h : k ≠ limitKey bucket key) : (l.exec s srv bucket key now).2.1 k = s k := by
  unfold Limiter.exec
  dsimp only
  split_ifs <;> simp only [expire_ne h, zremRangeByScore_ne h, zadd_ne h]

theorem zsetAt_congr {s s' : Store} {k : Str} (h : s' k = s k) (t : Int) :
    zsetAt s' t k = zsetAt s t k := by
  simp [zsetAt, lookup, h]

theorem zsetAt_eq_nil_of_le {s : Store} {k : Str} {now t : Int} (h : lookup s now k = none)
    (ht : now ≤ t) : zsetAt s t k = [] := by
  unfold zsetAt lookup at *
  cases hs : s k with
  | none => rfl
  | some e =>
    simp only [hs] at h
    split_ifs at h with he
    have : e.expireAt.any (· < t) := by
      cases hx : e.expireAt <;> simp_all; omega
    simp [this]

theorem zsetAt_zrem (s : Store) (k : Str) {now t : Int} (m : Int) (ht : now ≤ t) :
    zsetAt (zrem s now k m) t k = (zsetAt s t k).filter (·.1 != m) := by
  unfold zrem
  split
  next e he =>
    have hk : s k = some e ∧ e.expireAt.any (· < now) = false := by
      unfold lookup at he
      cases hs : s k with
      | none => simp [hs] at he
      | some e' =>
        simp only [hs] at he
        split_ifs at he with hx
        cases he
        exact ⟨rfl, by simpa using hx⟩
    rw [zsetAt_put_self]
    simp only [zsetAt, lookup, hk.1]
    split_ifs <;> rfl
  next he =>
    rw [zsetAt_eq_nil_of_le he ht]
    simp [zsetAt, lookup]

theorem step_remove_fst (l : Limiter) (sys : System) (i : Nat) (now : Int) :
    (l.step sys (.remove i now)).1 = none := by
  simp only [Limiter.step]; split <;> rfl

theorem step_call_fst (l : Limiter) (sys : System) (c : Call) (now : Int) :
    (l.step sys (.call c now)).1 = some (l.exec sys.store now c.bucket c.key c.nowMs).1 := by
  simp only [Limiter.step]; split <;> simp_all

/-- The invariant of the limit key `k` at server time `now`; `seen` are its calls' readings. -/
structure Guards (lim : Limit) (ε : Int) (k : Str) (sys : System) (seen adm : List Int)
    (now : Int) : Prop where
  nodup : seen.Nodup
  sub : adm.Sublist seen
  adm_le : ∀ a ∈ adm, a ≤ now + ε
  members : ∀ t, now ≤ t → ∀ p ∈ zsetAt sys.store t k, p.1 = p.2 ∧ p.1 ∈ seen
  covers : ∀ t, now ≤ t → ∀ a ∈ adm, t + ε - milliseconds lim.window < a →
    a ∈ (zsetAt sys.store t k).map Prod.fst
  pending : ∀ e ∈ sys.pending, e.1 = k → e.2 ∈ seen ∧ e.2 ∉ adm
  safe : NeverOverAdmitsOpen (milliseconds lim.window - 2 * ε) lim.limit adm

theorem guards_empty (lim : Limit) (ε : Int) (h : 0 ≤ lim.limit) (k : Str) (now : Int) :
    Guards lim ε k ⟨fun _ => none, []⟩ [] [] now :=
  ⟨List.nodup_nil, List.Sublist.slnil, by simp, by simp [zsetAt, lookup], by simp, by simp,
    neverOverAdmitsOpen_nil _ h⟩

/-- A step that leaves `k` alone and queues no `ZREM` of it keeps the invariant. -/
theorem Guards.frame {lim : Limit} {ε : Int} {k : Str} {sys sys' : System} {seen adm : List Int}
    {now now' : Int} (g : Guards lim ε k sys seen adm now) (hnow : now ≤ now')
    (hs : sys'.store k = sys.store k) (hp : ∀ e ∈ sys'.pending, e.1 = k → e ∈ sys.pending) :
    Guards lim ε k sys' seen adm now' where
  nodup := g.nodup
  sub := g.sub
  adm_le a ha := (g.adm_le a ha).trans (by omega)
  members t ht := by rw [zsetAt_congr hs]; exact g.members t (hnow.trans ht)
  covers t ht := by rw [zsetAt_congr hs]; exact g.covers t (hnow.trans ht)
  pending e he hk := g.pending e (hp e he hk) hk
  safe := g.safe

/-- A late `ZREM` of `k` removes a reading that was not admitted. -/
theorem Guards.remove (l : Limiter) {lim : Limit} {ε : Int} {k : Str} {sys : System}
    {seen adm : List Int} {now : Int} (g : Guards lim ε k sys seen adm now) (i : Nat) {now' : Int}
    (hnow : now ≤ now') : Guards lim ε k (l.step sys (.remove i now')).2 seen adm now' := by
  simp only [Limiter.step]
  split
  next k' m he =>
    have hsub : ∀ e ∈ sys.pending.eraseIdx i, e.1 = k → e ∈ sys.pending :=
      fun e he' _ => List.mem_of_mem_eraseIdx he'
    by_cases hk : k' = k
    · subst hk
      have hm := (g.pending _ (List.getElem?_mem he) rfl).2
      refine ⟨g.nodup, g.sub, fun a ha => (g.adm_le a ha).trans (by omega), fun t ht p hp => ?_,
        fun t ht a ha hw => ?_, fun e he' hk => g.pending e (hsub e he' hk) hk, g.safe⟩
      · rw [zsetAt_zrem _ _ _ ht] at hp
        exact g.members t (hnow.trans ht) p (List.mem_of_mem_filter hp)
      · obtain ⟨p, hp, rfl⟩ := List.mem_map.mp (g.covers t (hnow.trans ht) a ha hw)
        rw [zsetAt_zrem _ _ _ ht]
        exact List.mem_map_of_mem _ (List.mem_filter.mpr ⟨hp, by
          simp only [bne_iff_ne, ne_eq]; rintro rfl; exact hm ha⟩)
    · exact g.frame hnow (zrem_ne (Ne.symm hk) _ _) hsub
  next => exact g.frame hnow rfl fun e he _ => he

theorem Guards.call_off (l : Limiter) {lim : Limit} {ε : Int} {k : Str} {sys : System}
    {seen adm : List Int} {now : Int} (g : Guards lim ε k sys seen adm now) (c : Call) {srv : Int}
    (hnow : now ≤ srv) (hc : k ≠ limitKey c.bucket c.key) :
    Guards lim ε k (l.step sys (.call c srv)).2 seen adm srv := by
  have hs := exec_ne l sys.store srv c.nowMs hc
  simp only [Limiter.step]
  split
  next r s m he =>
    rw [he] at hs
    refine g.frame hnow hs fun e he hk => ?_
    rcases List.mem_append.mp he with he | he
    · exact he
    · exact absurd (hk.symm.trans (List.mem_singleton.mp he ▸ rfl)) hc
  next r s he =>
    rw [he] at hs
    exact g.frame hnow hs fun e he _ => he

theorem trim_members {Z : ZSet} {seen : List Int} {t w : Int}
    (hZ : ∀ p ∈ Z, p.1 = p.2 ∧ p.1 ∈ seen) :
    ∀ p ∈ (Z ++ [(t, t)]).filter (fun m => !(0 ≤ m.2 && m.2 ≤ t - w)),
      p.1 = p.2 ∧ p.1 ∈ seen ++ [t] := by
  intro p hp
  rcases List.mem_append.mp (List.mem_of_mem_filter hp) with hp | hp
  · exact ⟨(hZ p hp).1, List.mem_append_left _ (hZ p hp).2⟩
  · rw [List.mem_singleton.mp hp]; exact ⟨rfl, List.mem_append_right _ (List.mem_singleton_self t)⟩

theorem trim_covers {Z : ZSet} {adm : List Int} {t w c : Int} (hZ : ∀ p ∈ Z, p.1 = p.2)
    (hcov : ∀ a ∈ adm, c < a → a ∈ Z.map Prod.fst) (hc : t - w ≤ c) :
    ∀ a ∈ adm ++ [t], c < a →
      a ∈ ((Z ++ [(t, t)]).filter fun m => !(0 ≤ m.2 && m.2 ≤ t - w)).map Prod.fst := by
  have keep : ∀ a, c < a → (a, a) ∈ Z ++ [(t, t)] →
      a ∈ ((Z ++ [(t, t)]).filter fun m => !(0 ≤ m.2 && m.2 ≤ t - w)).map Prod.fst :=
    fun a hw h => List.mem_map_of_mem Prod.fst (List.mem_filter.mpr ⟨h, by simp; omega⟩)
  intro a ha hw
  rcases List.mem_append.mp ha with ha | ha
  · obtain ⟨⟨x, y⟩, hp, rfl⟩ := List.mem_map.mp (hcov a ha hw)
    obtain rfl : x = y := hZ _ hp
    exact keep x hw (List.mem_append_left _ hp)
  · rw [List.mem_singleton.mp ha] at hw ⊢
    exact keep t hw (List.mem_append_right _ (List.mem_singleton_self _))

theorem zsetAt_expire {s : Store} {k : Str} {z : ZSet} {srv σ sec w ε a : Int}
    (hw : w ≤ sec * 1000) (hσ : srv ≤ σ) (ha : a ≤ srv + ε) (hwa : σ + ε - w < a) :
    zsetAt (put s k (if srv + sec * 1000 ≤ srv then [] else z) (some (srv + sec * 1000))) σ k = z := by
  rw [zsetAt_put_self, Option.any_some, if_neg (by simpa using by omega), if_neg (by omega)]

theorem mem_zsetAt_put {s : Store} {k : Str} {c : Prop} [Decidable c] {z : ZSet} {x : Option Int}
    {t : Int} {p : Int × Int} (hp : p ∈ zsetAt (put s k (if c then [] else z) x) t k) :
    p ∈ z := by
  rw [zsetAt_put_self] at hp
  split_ifs at hp <;> simp_all

/-- A call at an unseen reading within `ε` of the server's time keeps the invariant. -/
theorem Guards.call_on (l : Limiter) {bucket key : Str} (hb : bucket ≠ []) (hk : key ≠ [])
    (hwin : (getLimit l.limits bucket).1.window ≤ maxInt64 - 1000000000) {ε : Int} {sys : System}
    {seen adm : List Int} {now srv t : Int}
    (g : Guards (getLimit l.limits bucket).1 ε (limitKey bucket key) sys seen adm now)
    (hnow : now ≤ srv) (hskew : srv - ε ≤ t ∧ t ≤ srv + ε) (hfresh : t ∉ seen) :
    ∃ b, (l.step sys (.call ⟨bucket, key, t⟩ srv)).1 = some (.ok b) ∧
      Guards (getLimit l.limits bucket).1 ε (limitKey bucket key)
        (l.step sys (.call ⟨bucket, key, t⟩ srv)).2 (seen ++ [t])
        (if b then adm ++ [t] else adm) srv := by
  have hZ := g.members srv hnow
  have hcov := trim_covers (t := t) (w := milliseconds (getLimit l.limits bucket).1.window)
    (fun p hp => (hZ p hp).1) (g.covers srv hnow) (by omega)
  have hmem := trim_members (t := t) (w := milliseconds (getLimit l.limits bucket).1.window) hZ
  have hw := milliseconds_le_formatSec _ hwin
  have hle : ∀ a ∈ adm ++ [t], a ≤ srv + ε := by
    simp only [List.mem_append, List.mem_singleton]
    rintro a (ha | rfl)
    exacts [(g.adm_le a ha).trans (by omega), hskew.2]
  have hnodup : (seen ++ [t]).Nodup :=
    List.nodup_append.mpr ⟨g.nodup, List.nodup_singleton t, fun a ha hat =>
      hfresh (List.mem_singleton.mp hat ▸ ha)⟩
  have hnot : t ∉ adm := fun h => hfresh (g.sub.subset h)
  simp only [Limiter.step, exec_eq l hb hk sys.store srv t fun m hm h =>
    hfresh (h ▸ (hZ m hm).2)]
  generalize (zsetAt sys.store srv (limitKey bucket key) ++ [(t, t)]).filter
    (fun m => !(0 ≤ m.2 && m.2 ≤ t - milliseconds (getLimit l.limits bucket).1.window)) = z
    at hcov hmem ⊢
  generalize formatSec (toInt64 ((getLimit l.limits bucket).1.window + 1000000000)) = sec at hw ⊢
  have covers : ∀ a ∈ adm ++ [t], ∀ σ, srv ≤ σ →
      σ + ε - milliseconds (getLimit l.limits bucket).1.window < a →
      a ∈ (zsetAt (put sys.store (limitKey bucket key) (if srv + sec * 1000 ≤ srv then [] else z)
        (some (srv + sec * 1000))) σ (limitKey bucket key)).map Prod.fst := fun a ha σ hσ hwa => by
    rw [zsetAt_expire hw hσ (hle a ha) hwa]
    exact hcov a ha (by omega)
  by_cases hl : (getLimit l.limits bucket).1.limit < z.length
  · refine ⟨false, by simp [hl], ?_⟩
    simp only [hl, if_true, Bool.false_eq_true, if_false]
    exact
      { nodup := hnodup
        sub := g.sub.trans (List.sublist_append_left _ _)
        adm_le := fun a ha => hle a (List.mem_append_left _ ha)
        members := fun σ _ p hp => hmem p (mem_zsetAt_put hp)
        covers := fun σ hσ a ha => covers a (List.mem_append_left _ ha) σ hσ
        pending := fun e he hk => by
          rcases List.mem_append.mp he with he | he
          · exact ⟨List.mem_append_left _ (g.pending e he hk).1, (g.pending e he hk).2⟩
          · rw [List.mem_singleton.mp he]
            exact ⟨List.mem_append_right _ (List.mem_singleton_self t), hnot⟩
        safe := g.safe }
  · refine ⟨true, by simp [hl], ?_⟩
    simp only [hl, if_false, if_true]
    have hcount : (((adm ++ [t]).filter fun a =>
        t - (milliseconds (getLimit l.limits bucket).1.window - 2 * ε) < a ∧
          a < t + (milliseconds (getLimit l.limits bucket).1.window - 2 * ε)).length : Int) ≤
          z.length := by
      rw [← List.length_map z Prod.fst]
      exact_mod_cast (((hnodup.sublist (g.sub.append_right [t])).filter _).subperm fun a ha => by
        obtain ⟨ha, hwa⟩ := List.mem_filter.mp ha
        simp only [decide_eq_true_eq] at hwa
        exact hcov a ha (by omega)).length_le
    exact
      { nodup := hnodup
        sub := g.sub.append_right [t]
        adm_le := hle
        members := fun σ _ p hp => hmem p (mem_zsetAt_put hp)
        covers := fun σ hσ a ha => covers a ha σ hσ
        pending := fun e he hk => by
          obtain ⟨hs, hn⟩ := g.pending e he hk
          simp only [List.mem_append, List.mem_singleton, not_or]
          exact ⟨Or.inl hs, hn, fun h => hfresh (h ▸ hs)⟩
        safe := g.safe.record (by omega) }

theorem Limiter.runSteps_cons (l : Limiter) (sys : System) (st : Step) (sts : List Step) :
    l.runSteps sys (st :: sts) = (l.step sys st).1.toList ++ l.runSteps (l.step sys st).2 sts :=
  rfl

@[simp] theorem callsOf_cons_call (c : Call) (now : Int) (sts : List Step) :
    callsOf (.call c now :: sts) = c :: callsOf sts :=
  rfl

theorem callsOn_cons_call (bucket key : Str) (c : Call) (now : Int) (sts : List Step) :
    callsOn bucket key (.call c now :: sts) =
      if c.bucket = bucket ∧ c.key = key then c :: callsOn bucket key sts
      else callsOn bucket key sts := by
  simp [callsOn, List.filter_cons]

theorem admittedOn_cons (bucket key : Str) (c : Call) (cs : List Call) (r : Except String Bool)
    (rs : List (Except String Bool)) :
    admittedOn bucket key (c :: cs) (r :: rs) =
      (if c.bucket = bucket ∧ c.key = key ∧ r = .ok true then [c.nowMs] else []) ++
        admittedOn bucket key cs rs := by
  unfold admittedOn; split_ifs <;> simp [*]

theorem Guards.runSteps (l : Limiter) {bucket key : Str} (hb : bucket ≠ []) (hk : key ≠ [])
    (hwin : (getLimit l.limits bucket).1.window ≤ maxInt64 - 1000000000) {ε : Int}
    (steps : List Step) {sys : System} {seen adm : List Int} {now : Int}
    (g : Guards (getLimit l.limits bucket).1 ε (limitKey bucket key) sys seen adm now)
    (hclock : (now :: steps.map Step.time).Pairwise (· ≤ ·)) (hskew : ∀ st ∈ steps, st.Skewed ε)
    (hcalls : (seen ++ (callsOn bucket key steps).map Call.nowMs).Nodup)
    (hkey : ∀ c ∈ callsOf steps, limitKey c.bucket c.key = limitKey bucket key →
      c.bucket = bucket ∧ c.key = key) :
    NeverOverAdmitsOpen (milliseconds (getLimit l.limits bucket).1.window - 2 * ε)
      (getLimit l.limits bucket).1.limit
      (adm ++ admittedOn bucket key (callsOf steps) (l.runSteps sys steps)) := by
  induction steps generalizing sys seen adm now with
  | nil => simpa [callsOf, admittedOn, Limiter.runSteps] using g.safe
  | cons st sts ih =>
    obtain ⟨hnow, hclock⟩ := List.pairwise_cons.mp hclock
    have hskew' : ∀ st ∈ sts, st.Skewed ε := fun st h => hskew st (List.mem_cons_of_mem _ h)
    rw [Limiter.runSteps_cons]
    cases st with
    | remove i t =>
      rw [step_remove_fst]
      exact ih (g.remove l i (hnow t (List.mem_cons_self _ _))) hclock hskew' hcalls hkey
    | call c srv =>
      have hkey' : ∀ c' ∈ callsOf sts, limitKey c'.bucket c'.key = limitKey bucket key →
          c'.bucket = bucket ∧ c'.key = key := fun c' hc' => hkey c' (List.mem_cons_of_mem c hc')
      have hsrv := hnow srv (List.mem_cons_self _ _)
      rw [callsOn_cons_call] at hcalls
      rw [callsOf_cons_call]
      by_cases hc : c.bucket = bucket ∧ c.key = key
      · obtain ⟨cb, ck, t⟩ := c
        obtain ⟨rfl, rfl⟩ := hc
        rw [if_pos ⟨rfl, rfl⟩, List.map_cons, ← List.singleton_append, ← List.append_assoc]
          at hcalls
        have hfresh : t ∉ seen := fun h =>
          (List.nodup_append.mp (List.nodup_append.mp hcalls).1).2.2 h (List.mem_singleton_self t)
        obtain ⟨b, hr, g'⟩ := g.call_on l hb hk hwin hsrv (hskew _ (List.mem_cons_self _ _)) hfresh
        have := ih g' hclock hskew' hcalls hkey'
        rw [hr]
        cases b <;> simpa [admittedOn_cons] using this
      · have hne : limitKey bucket key ≠ limitKey c.bucket c.key := fun h =>
          hc (hkey c (List.mem_cons_self _ _) h.symm)
        rw [if_neg hc] at hcalls
        rw [step_call_fst, Option.toList_some, List.singleton_append, admittedOn_cons,
          if_neg fun h => hc ⟨h.1, h.2.1⟩, List.nil_append]
        exact ih (g.call_off l c hsrv hne) hclock hskew' hcalls hkey'

/-- A clock skew of `ε` between the instances and the server costs `2ε` of the window. -/
theorem allowNamed_interleaved_safe (limits : Str → Option Limit) {bucket key : Str}
    (hb : bucket ≠ []) (hk : key ≠ []) (hlim : 0 ≤ (getLimit limits bucket).1.limit)
    (hwin : (getLimit limits bucket).1.window ≤ maxInt64 - 1000000000) (ε : Int)
    (steps : List Step) (hclock : (steps.map Step.time).Pairwise (· ≤ ·))
    (hskew : ∀ st ∈ steps, st.Skewed ε)
    (hdistinct : ((callsOn bucket key steps).map Call.nowMs).Nodup)
    (hkey : ∀ c ∈ callsOf steps, limitKey c.bucket c.key = limitKey bucket key →
      c.bucket = bucket ∧ c.key = key) :
    NeverOverAdmitsOpen (milliseconds (getLimit limits bucket).1.window - 2 * ε)
      (getLimit limits bucket).1.limit
      (admittedOn bucket key (callsOf steps)
        ((Limiter.mk limits).runSteps ⟨fun _ => none, []⟩ steps)) := by
  obtain ⟨m, hm⟩ := (steps.map Step.time).toFinset.bddBelow
  simpa using Guards.runSteps (Limiter.mk limits) hb hk hwin steps
    (guards_empty _ ε hlim (limitKey bucket key) m)
    (List.pairwise_cons.mpr ⟨fun x hx => hm (List.mem_toFinset.mpr hx), hclock⟩) hskew
    (by simpa using hdistinct) hkey

/-- Requests that cross on the network: the reading 60999 reaches the server after 61001. -/
theorem allowNamed_interleaved_safe_crossing :
    let limits : Str → Option Limit :=
      fun b => if b = "login".toList then some ⟨2, minute⟩ else none
    let steps : List Step := [.call ⟨"login".toList, "user1".toList, 1000⟩ 1000,
      .call ⟨"login".toList, "user1".toList, 1001⟩ 1001,
      .call ⟨"login".toList, "user1".toList, 61001⟩ 61001,
      .call ⟨"login".toList, "user1".toList, 60999⟩ 61001,
      .call ⟨"login".toList, "user1".toList, 61002⟩ 61002, .remove 0 61010]
    (Limiter.mk limits).runSteps ⟨fun _ => none, []⟩ steps =
        [.ok true, .ok true, .ok true, .ok true, .ok false] ∧
      NeverOverAdmitsOpen (milliseconds (getLimit limits "login".toList).1.window - 2 * 2)
        (getLimit limits "login".toList).1.limit
        (admittedOn "login".toList "user1".toList (callsOf steps)
          ((Limiter.mk limits).runSteps ⟨fun _ => none, []⟩ steps)) :=
  ⟨by decide, allowNamed_interleaved_safe _ (by decide) (by decide) (by decide) (by decide) 2 _
    (by decide) (by decide) (by decide) (by decide)⟩

end Authkit.RateLimit.Redis
