import Authkit.Text

namespace Authkit.RateLimit

/-- `Limit`, with `Window` a `time.Duration` in nanoseconds. -/
structure Limit where
  limit : Int
  window : Int
  deriving DecidableEq, Repr

/-- `time.Duration.Milliseconds`: integer division truncating toward zero. -/
def milliseconds (d : Int) : Int := d.tdiv 1000000

def minute : Int := 60 * 1000000000

/-- `l.get(bucket)` of both backends: the bucket's limit, else `default`, else 100 a minute. -/
def getLimit (limits : Str → Option Limit) (bucket : Str) : Limit × Bool :=
  match limits bucket with
  | some v => (v, true)
  | none =>
    match limits "default".toList with
    | some v => (v, true)
    | none => (⟨100, minute⟩, false)

/-- `fmt.Sprintf("%s:%s", key, bucket)`, the key both backends store a bucket under. -/
def limitKey (bucket key : Str) : Str := key ++ ':' :: bucket

theorem limitKey_eq_iff {bucket key : Str} (hb : ':' ∉ bucket) (hk : ':' ∉ key) (b k : Str) :
    limitKey b k = limitKey bucket key ↔ b = bucket ∧ k = key := by
  rw [eq_comm, limitKey, limitKey, List.append_cons_inj_of_not_mem hk hb]
  exact ⟨fun ⟨h1, _, h3⟩ => ⟨h3.symm, h1.symm⟩, fun ⟨h1, h2⟩ => ⟨h2.symm, rfl, h1.symm⟩⟩

/-- A call of `AllowNamed(bucket, key)` whose clock reads `nowMs` (Unix ms). -/
structure Call where
  bucket : Str
  key : Str
  nowMs : Int
  deriving DecidableEq, Repr

def admittedTimes (ts : List Int) (rs : List (Except String Bool)) : List Int :=
  (ts.zip rs).filterMap fun p => if p.2 = .ok true then some p.1 else none

/-- At most `limit` admitted timestamps in every closed window `[t - W, t]`. -/
def NeverOverAdmits (lim : Limit) (admitted : List Int) : Prop :=
  ∀ t, ((admitted.filter fun a => t - milliseconds lim.window ≤ a ∧ a ≤ t).length : Int) ≤ lim.limit

@[simp] theorem admittedTimes_cons_ok_true (t : Int) (ts : List Int) (rs : List (Except String Bool)) :
    admittedTimes (t :: ts) (.ok true :: rs) = t :: admittedTimes ts rs := by
  simp [admittedTimes]

@[simp] theorem admittedTimes_cons_ok_false (t : Int) (ts : List Int) (rs : List (Except String Bool)) :
    admittedTimes (t :: ts) (.ok false :: rs) = admittedTimes ts rs := by
  simp [admittedTimes]

theorem neverOverAdmits_nil (lim : Limit) (h : 0 ≤ lim.limit) : NeverOverAdmits lim [] :=
  fun _ => by simpa using h

theorem NeverOverAdmits.record {lim : Limit} {adm : List Int} (h : NeverOverAdmits lim adm)
    {t : Int}
    (ht : ((adm.filter (t - milliseconds lim.window ≤ ·)).length : Int) < lim.limit) :
    NeverOverAdmits lim (adm ++ [t]) := by
  intro s
  rw [List.filter_append, List.length_append]
  by_cases hs : s - milliseconds lim.window ≤ t ∧ t ≤ s
  · have hle : (adm.filter fun a => s - milliseconds lim.window ≤ a ∧ a ≤ s).length ≤
        (adm.filter (t - milliseconds lim.window ≤ ·)).length := by
      simp only [← List.countP_eq_length_filter]
      exact List.countP_mono_left fun a _ ha => by simp at ha ⊢; omega
    have h1 : ([t].filter fun a => s - milliseconds lim.window ≤ a ∧ a ≤ s).length = 1 := by
      rw [List.filter_singleton, decide_eq_true hs]; rfl
    omega
  · have h0 : ([t].filter fun a => s - milliseconds lim.window ≤ a ∧ a ≤ s).length = 0 := by
      rw [List.filter_singleton, decide_eq_false hs]; rfl
    have := h s
    omega

theorem map_eraseIdx {α β : Type} (f : α → β) (l : List α) (i : Nat) :
    (l.eraseIdx i).map f = (l.map f).eraseIdx i := by
  induction l generalizing i with
  | nil => rfl
  | cons a l ih => cases i <;> simp [ih]

end Authkit.RateLimit
