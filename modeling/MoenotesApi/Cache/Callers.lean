import MoenotesApi.Cache.Freshness

/-!
# What one event does to a caller of the cache

* `CallerEffect`, `Step.caller`: the caller that an event moves, if it moves one; a caller goes on from
  one stage to a later one with the query that it came with, and does not move once it has returned;
* `arrived_of_run`, `returned_of_run`: what this means for a run;
* `spanned_of_run`: an answer was obtained, and the generation read, before one moment, and the
  generation read again at a later one;
* `Launches`: a caller starts a flight; `launched_of_run`, `launches_unique`: every flight has been
  started by a caller, and no caller starts two.
-/

namespace MoenotesApi

/-- The caller has not got to its lookup. -/
def CallerStage.early {J : Type} : CallerStage J → Bool
  | .arrived | .unblocked | .waiting _ => true
  | _ => false

/-- The call of `query` has returned. -/
def CallerStage.over {J : Type} : CallerStage J → Bool
  | .returned _ _ => true
  | _ => false

namespace QueryCache

open Runs

variable {ι J : Type} [DecidableEq ι] {codec : Codec J} {opt : CacheOptions} {c c' : QueryCache ι J}
variable {e : Event ι J} {ts : List (Transition (QueryCache ι J) (Event ι J))} {i : ι}

/-- A query is made. -/
def arrives (t : Transition (QueryCache ι J) (Event ι J)) : Bool :=
  match t.event with
  | .arrive _ _ => true
  | _ => false

/-- What an event does to the callers. -/
inductive CallerEffect (c : QueryCache ι J) (e : Event ι J) (c' : QueryCache ι J) : Prop
  | unchanged (h : c'.callers = c.callers)
  | arrived {i caller} (he : e = .arrive i caller.query) (hi : c.callers i = none)
      (h : c'.callers = Function.update c.callers i (some caller))
  | moved {i q stage stage'} (hi : c.callers i = some ⟨q, stage⟩) (hover : stage.over = false)
      (h : c'.callers = Function.update c.callers i (some ⟨q, stage'⟩))
      (hearly : stage'.early = true → stage.early = true)

theorem Step.caller [DecidableEq J] (h : Step codec opt c e c') : CallerEffect c e c' := by
  cases h with
  | arrive hi => exact .arrived rfl hi rfl
  | drop hi hs =>
    rcases hs with ⟨key, rfl⟩ | ⟨key, f, status, rfl⟩ <;>
      exact .moved hi rfl rfl (by simp [CallerStage.early])
  | unblocked hi | capture hi => exact .moved hi rfl rfl fun _ => rfl
  | found hi | join hi | full hi | spawn hi | blocked hi | stopped hi | hitBlocked hi | hitCheck hi
  | hitChanged hi | hitReturn hi | wake hi | wokenBlocked hi | errorCheck hi | finishChanged hi
  | finish hi | cancelled hi => exact .moved hi rfl rfl (by simp [CallerStage.early])
  | execute | answer | relock | publish | client | stop | advance | rearrange => exact .unchanged rfl

/-- A caller has come with its query. -/
theorem CallerEffect.query (h : CallerEffect c e c') {caller' : Caller J}
    (hi : c'.callers i = some caller') :
    (∃ caller, c.callers i = some caller ∧ caller.query = caller'.query) ∨
      e = .arrive i caller'.query := by
  cases h with
  | unchanged h => exact .inl ⟨caller', by rw [← h, hi], rfl⟩
  | @arrived j caller he _ h =>
    rw [h] at hi
    by_cases hij : i = j
    · subst hij
      rw [Function.update_self] at hi
      cases hi
      exact .inr he
    · rw [Function.update_of_ne hij] at hi
      exact .inl ⟨caller', hi, rfl⟩
  | @moved j q stage stage' hj _ h =>
    rw [h] at hi
    by_cases hij : i = j
    · subst hij
      rw [Function.update_self] at hi
      cases hi
      exact .inl ⟨_, hj, rfl⟩
    · rw [Function.update_of_ne hij] at hi
      exact .inl ⟨caller', hi, rfl⟩

/-- A caller that has returned stays as it is. -/
theorem CallerEffect.returned (h : CallerEffect c e c') {q : Query} {stage : CallerStage J}
    (hover : stage.over = true) (hi : c.callers i = some ⟨q, stage⟩) :
    c'.callers i = some ⟨q, stage⟩ := by
  cases h with
  | unchanged h => rw [h, hi]
  | @arrived j _ _ hj h =>
    rw [h, Function.update_of_ne, hi]
    rintro rfl
    rw [hi] at hj
    cases hj
  | @moved j _ _ _ hj hnot h =>
    rw [h, Function.update_of_ne, hi]
    rintro rfl
    rw [hi] at hj
    cases hj
    rw [hover] at hnot
    cases hnot

variable [DecidableEq J]

theorem returned_of_run (hrun : Run (QueryCache.step codec opt) c ts c') {q : Query}
    {stage : CallerStage J} (hover : stage.over = true) (hi : c.callers i = some ⟨q, stage⟩) :
    c'.callers i = some ⟨q, stage⟩ := by
  induction hrun with
  | nil => exact hi
  | snoc _ hstep ih => exact (Step.of_step hstep).caller.returned hover ih

/-! ### The span of an answer -/

/-- What the return of a caller says: the response had been obtained, and the generation read, some time
before, and the generation is the same again. -/
def Spanned (codec : Codec J) (ts : List (Transition (QueryCache ι J) (Event ι J))) (i : ι) (q : Query)
    (response : CachedResponse J) : Prop :=
  ∃ g a k b v w, ts = a ++ k :: (b ++ v :: w) ∧ Captures i g k ∧ Returns i g v ∧
    ∃ o ∈ a ++ k :: b, Calls codec q g response o

omit [DecidableEq J] in
/-- A step in which the caller `i` returns an answer: what it has in its hands then. -/
theorem Step.returns (h : Step codec opt c e c') (hhistory : History codec opt ts c) {q : Query}
    {flight : Option ℕ} {response : CachedResponse J} {status : CacheStatus}
    (hi : c'.callers i = some ⟨q, .returned flight (.ok (response, status))⟩) :
    c.callers i = some ⟨q, .returned flight (.ok (response, status))⟩ ∨
      ∃ key, Returns i key.generation (⟨c, e, c'⟩ : Transition (QueryCache ι J) (Event ι J)) ∧
        Checked codec opt ts i q key response status := by
  have other {j : ι} {q' : Query} {stage : CallerStage J}
      (hupdate : c'.callers = Function.update c.callers j (some ⟨q', stage⟩))
      (hne : ∀ flight answer, stage ≠ .returned flight (.ok answer)) :
      c.callers i = some ⟨q, .returned flight (.ok (response, status))⟩ := by
    rw [hupdate] at hi
    by_cases hij : i = j
    · subst hij
      rw [Function.update_self] at hi
      cases hi
      exact absurd rfl (hne flight _)
    · rwa [Function.update_of_ne hij] at hi
  cases h with
  | @hitReturn j q' key entry now hj hg =>
    by_cases hij : i = j
    · subst hij
      simp only [unlock_callers, setCaller_callers, Function.update_self] at hi
      cases hi
      exact .inr ⟨key, ⟨.inl rfl, hg⟩, hhistory.callers _ _ hj⟩
    · simp only [unlock_callers, setCaller_callers, touched_callers, Function.update_of_ne hij] at hi
      exact .inl hi
  | @finish j q' key f status' result hj hg =>
    by_cases hij : i = j
    · subst hij
      simp only [setCaller_callers, Function.update_self, Option.some.injEq, Caller.mk.injEq,
        CallerStage.returned.injEq] at hi
      obtain ⟨rfl, -, hresult⟩ := hi
      cases result with
      | error error => cases hresult
      | ok response' =>
        cases hresult
        exact .inr ⟨key, ⟨.inr rfl, hg⟩, (hhistory.callers _ _ hj).2 response rfl⟩
    · simp only [setCaller_callers, Function.update_of_ne hij] at hi
      exact .inl hi
  | arrive hj =>
    refine .inl (other rfl ?_)
    unfold arrival
    split <;> simp
  | blocked | unblocked | stopped | capture | found | join | full | spawn | hitBlocked | hitCheck
  | hitChanged | wake | wokenBlocked | errorCheck | finishChanged | cancelled | drop =>
    exact .inl (other rfl (by simp))
  | execute | answer | relock | publish | client | stop | advance | rearrange => exact .inl hi

/-- An answer spans a part of the run. -/
theorem spanned_of_run {generation now : ℕ} {blocked : Bool → Option ClientError}
    (hrun : Run (QueryCache.step codec opt) (initial generation blocked now) ts c) {q : Query}
    {flight : Option ℕ} {response : CachedResponse J} {status : CacheStatus}
    (hi : c.callers i = some ⟨q, .returned flight (.ok (response, status))⟩) :
    Spanned codec ts i q response := by
  induction hrun with
  | nil => cases hi
  | @snoc ts c e c' hrun hstep ih =>
    rcases (Step.of_step hstep).returns (history_of_run hrun).2.2 hi with hold | ⟨key, hreturns, hchecked⟩
    · obtain ⟨g, a, k, b, v, w, rfl, h⟩ := ih hold
      exact ⟨g, a, k, b, v, w ++ [⟨c, e, c'⟩], by simp, h⟩
    · obtain ⟨hkey, k, o, t, u, hktu, hot, hcaptures, hanswers, -⟩ := hchecked
      obtain ⟨a, b, hsplit⟩ := List.append_of_mem (hktu.subset List.mem_cons_self)
      refine ⟨key.generation, a, k, b, ⟨c, e, c'⟩, [], by simp [hsplit], hcaptures, hreturns, o, ?_, ?_⟩
      · rw [← hsplit]
        exact hot.subset List.mem_cons_self
      · rw [← hkey] at hanswers
        exact hanswers.calls

/-- A caller has come with its query. -/
theorem arrived_of_run {generation now : ℕ} {blocked : Bool → Option ClientError}
    (hrun : Run (QueryCache.step codec opt) (initial generation blocked now) ts c)
    {caller : Caller J} (hi : c.callers i = some caller) :
    ∃ t ∈ ts, t.event = .arrive i caller.query := by
  induction hrun generalizing caller with
  | nil => cases hi
  | snoc _ hstep ih =>
    rcases (Step.of_step hstep).caller.query hi with ⟨caller', hold, hquery⟩ | harrive
    · obtain ⟨t, ht, he⟩ := ih hold
      exact ⟨t, List.mem_append_left _ ht, by rw [he, hquery]⟩
    · exact ⟨_, List.mem_append_right _ List.mem_cons_self, harrive⟩

/-! ### The caller that starts a flight -/

/-- The caller is known and has not got to its lookup. -/
def earlyCaller (caller : Option (Caller J)) : Bool := caller.any fun caller => caller.stage.early

/-- The lookup of the caller `i` starts the flight `f`. -/
def Launches (i : ι) (f : ℕ) (t : Transition (QueryCache ι J) (Event ι J)) : Prop :=
  t.event = .lookup i ∧ ∃ q key, t.after.callers i = some ⟨q, .joined key f .miss⟩

omit [DecidableEq J] in
/-- Until then the caller was early, and the flight is a new one. -/
theorem Step.launches {f : ℕ} (h : Step codec opt c e c')
    (hl : Launches i f (⟨c, e, c'⟩ : Transition (QueryCache ι J) (Event ι J))) :
    f = c.nextTask ∧ earlyCaller (c.callers i) = true := by
  obtain ⟨he, q, key, hi'⟩ := hl
  dsimp only at he hi'
  subst he
  cases h with
  | spawn hi =>
    simp only [spawn_callers, Function.update_self] at hi'
    cases hi'
    exact ⟨rfl, by rw [hi]; rfl⟩
  | found hi | join hi | full hi => simp at hi'

omit [DecidableEq J] in
/-- A caller that is not early any more never is again. -/
theorem CallerEffect.late (h : CallerEffect c e c') (hi : c.callers i ≠ none)
    (hlate : earlyCaller (c.callers i) = false) :
    c'.callers i ≠ none ∧ earlyCaller (c'.callers i) = false := by
  cases h with
  | unchanged h =>
    rw [h]
    exact ⟨hi, hlate⟩
  | @arrived j _ _ hj h =>
    rw [h, Function.update_of_ne]
    · exact ⟨hi, hlate⟩
    · rintro rfl
      exact hi hj
  | @moved j q stage stage' hj _ h hearly =>
    rw [h]
    by_cases hij : i = j
    · subst hij
      rw [hj] at hlate
      rw [Function.update_self]
      refine ⟨by simp, Bool.eq_false_iff.2 fun hstage => ?_⟩
      rw [show earlyCaller (some ⟨q, stage⟩) = true from hearly hstage] at hlate
      cases hlate
    · rw [Function.update_of_ne hij]
      exact ⟨hi, hlate⟩

theorem late_of_launches (hrun : Run (QueryCache.step codec opt) c ts c') {f : ℕ}
    {t : Transition (QueryCache ι J) (Event ι J)} (ht : t ∈ ts) (hl : Launches i f t) :
    c'.callers i ≠ none ∧ earlyCaller (c'.callers i) = false := by
  obtain ⟨before, after, rfl⟩ := List.append_of_mem ht
  obtain ⟨-, -, hafter⟩ := hrun.around
  obtain ⟨-, q, key, hi⟩ := hl
  refine hafter.invariant (I := fun c => c.callers i ≠ none ∧ earlyCaller (c.callers i) = false)
    (fun _ _ _ h hs => (Step.of_step hs).caller.late h.1 h.2) ?_
  rw [hi]
  exact ⟨by simp, rfl⟩

/-- No caller starts two flights. -/
theorem launches_unique (hrun : Run (QueryCache.step codec opt) c ts c') {f g : ℕ}
    {t u : Transition (QueryCache ι J) (Event ι J)} (ht : t ∈ ts) (hu : u ∈ ts)
    (hl : Launches i f t) (hl' : Launches i g u) : f = g := by
  induction hrun with
  | nil => cases ht
  | @snoc ts m e m' hrun hstep ih =>
    have fresh {f g : ℕ} {t : Transition (QueryCache ι J) (Event ι J)} {rest : Prop} (ht : t ∈ ts)
        (hl : Launches i f t)
        (hl' : Launches i g (⟨m, e, m'⟩ : Transition (QueryCache ι J) (Event ι J))) : rest := by
      have hlate := (late_of_launches hrun ht hl).2
      rw [((Step.of_step hstep).launches hl').2] at hlate
      cases hlate
    rcases List.mem_append.1 ht with ht | ht <;> rcases List.mem_append.1 hu with hu | hu
    · exact ih ht hu
    · obtain rfl := List.mem_singleton.1 hu
      exact fresh ht hl hl'
    · obtain rfl := List.mem_singleton.1 ht
      exact fresh hu hl' hl
    · obtain rfl := List.mem_singleton.1 ht
      obtain rfl := List.mem_singleton.1 hu
      exact ((Step.of_step hstep).launches hl).1.trans ((Step.of_step hstep).launches hl').1.symm

/-- Every flight has been started by a caller. -/
theorem launched_of_run {generation now : ℕ} {blocked : Bool → Option ClientError}
    (hrun : Run (QueryCache.step codec opt) (initial generation blocked now) ts c) {f : ℕ}
    (hf : c.tasks f ≠ none) : ∃ i, ∃ t ∈ ts, Launches i f t := by
  induction hrun with
  | nil => exact absurd rfl hf
  | @snoc ts m e m' hrun hstep ih =>
    have old (hf : m.tasks f ≠ none) :
        ∃ i, ∃ t ∈ ts ++ [⟨m, e, m'⟩], Launches i f t := by
      obtain ⟨i, t, ht, hl⟩ := ih hf
      exact ⟨i, t, List.mem_append_left _ ht, hl⟩
    cases (Step.of_step hstep).tasks with
    | unchanged _ ht => exact old (ht ▸ hf)
    | @spawned i q key he _ hi' _ _ _ ht =>
      by_cases hnew : f = m.nextTask
      · subst hnew
        exact ⟨i, _, List.mem_append_right _ (List.mem_singleton_self _), he, q, key, hi'⟩
      · rw [ht, Function.update_of_ne hnew] at hf
        exact old hf
    | @advanced g _ _ _ _ _ _ hg _ _ _ _ ht | @published g _ _ _ _ hg ht =>
      by_cases hfg : f = g
      · subst hfg
        exact old (by simp [hg])
      · rw [ht, Function.update_of_ne hfg] at hf
        exact old hf

end QueryCache

end MoenotesApi
