import MoenotesApi.Deployment.Shared
import MoenotesApi.Cache.Callers

/-!
# Where the data of a response come from

From the response of the server through the pool and the cache to the call of the upstream.

* `SessionPool.carried`: the query that a pool still has to hand on; `Gateway.asked_of_run`: it is the
  query of the request;
* `cached_of_run`: a cache knows a request only by that query, and no other cache knows it;
* `Upstream`, `Served`: the call of the upstream that data were obtained from, and the session under
  which they were delivered;
* `data_provenance`: all data come that way.
-/

namespace MoenotesApi

open JsonTree (Value)
open Runs

namespace SessionPool

variable {ι σ α : Type} [DecidableEq ι] {p p' : SessionPool ι σ α} {e : Event ι σ α} {i : ι}

/-- The query that has not been handed to a cache yet. -/
def carried {α : Type} : PoolStage α → Option Query
  | .waiting query | .selecting query _ _ | .chosen query _ => some query
  | _ => none

/-- A query stays the query that was made. -/
theorem Step.carried_cases (h : Step p e p') {q : Query} (hi : (p'.queries i).bind carried = some q) :
    (p.queries i).bind carried = some q ∨ e = .query i q := by
  have kept {j : ι} {stage stage' : PoolStage α} {rest : Prop}
      (hi : (Function.update p.queries j (some stage') i).bind carried = some q)
      (hj : p.queries j = some stage) (hsame : carried stage' = none ∨ carried stage' = carried stage) :
      (p.queries i).bind carried = some q ∨ rest := by
    left
    by_cases hij : i = j
    · subst hij
      rw [Function.update_self, Option.bind_some] at hi
      rw [hj, Option.bind_some]
      rcases hsame with hnone | hsame
      · rw [hnone] at hi
        cases hi
      · rw [← hsame, hi]
    · rwa [Function.update_of_ne hij] at hi
  cases h with
  | @query j q' hj =>
    simp only [setQuery_queries] at hi
    by_cases hij : i = j
    · subst hij
      right
      rw [Function.update_self, Option.bind_some] at hi
      rcases arrive_cases p q' with harrive | ⟨error, harrive⟩
      · rw [harrive] at hi
        cases hi
        rfl
      · rw [harrive] at hi
        cases hi
    · rw [Function.update_of_ne hij] at hi
      exact .inl hi
  | lock hj => exact kept hi hj (.inr rfl)
  | examineRefused hj | examinePicked hj =>
    simp only [setQuery_queries, preflight_queries] at hi
    exact kept hi hj (.inr rfl)
  | examineEnd hj | enter hj | checkFailed hj | check hj | stamp hj | write hj | drop hj =>
    exact kept hi hj (.inl rfl)
  | @answer j k g result n hj =>
    refine kept hi hj (.inl ?_)
    rcases answered_cases p k g result with h | ⟨error, -, -, h⟩ <;> rw [h] <;> rfl
  | inspect | session | client | stop | advance => exact .inl hi

/-- A member that has been chosen is one of the pool. -/
theorem Step.chosen_cases (h : Step p e p') {q : Query} {j : ℕ}
    (hi : p'.queries i = some (.chosen q j)) : p.queries i = some (.chosen q j) ∨ j < p.size := by
  have other {k : ι} {stage : PoolStage α} {rest : Prop}
      (hi : Function.update p.queries k (some stage) i = some (.chosen q j))
      (hne : ∀ q j, stage ≠ .chosen q j) : p.queries i = some (.chosen q j) ∨ rest := by
    left
    by_cases hik : i = k
    · subst hik
      rw [Function.update_self] at hi
      exact absurd (Option.some.inj hi) (hne q j)
    · rwa [Function.update_of_ne hik] at hi
  cases h with
  | @examinePicked k q' offset _ hk ho =>
    simp only [setQuery_queries, preflight_queries] at hi
    by_cases hik : i = k
    · subst hik
      rw [Function.update_self] at hi
      cases hi
      exact .inr (Nat.mod_lt _ (Nat.zero_lt_of_lt ho))
    · rw [Function.update_of_ne hik] at hi
      exact .inl hi
  | examineRefused hk =>
    simp only [setQuery_queries, preflight_queries] at hi
    exact other hi (by simp)
  | query =>
    refine other hi ?_
    intro q j hchosen
    rcases arrive_cases p _ with harrive | ⟨error, harrive⟩ <;> rw [harrive] at hchosen <;> cases hchosen
  | answer =>
    refine other hi ?_
    intro q j hchosen
    rcases answered_cases p _ _ _ with h | ⟨error, -, -, h⟩ <;> rw [h] at hchosen <;> cases hchosen
  | lock | examineEnd | enter | checkFailed | check | stamp | write | drop => exact other hi (by simp)
  | inspect | session | client | stop | advance => exact .inl hi

theorem chosen_lt_of_run {ts : List (Transition (SessionPool ι σ α) (Event ι σ α))}
    (hrun : Run SessionPool.step p ts p') (h : ∀ i, p.queries i = none) {q : Query} {j : ℕ}
    (hi : p'.queries i = some (.chosen q j)) : j < p.size := by
  induction hrun with
  | nil =>
    rw [h] at hi
    cases hi
  | snoc hrun hstep ih =>
    rcases (Step.of_step hstep).chosen_cases hi with hold | hlt
    · exact ih hold
    · rwa [size_of_run hrun] at hlt

end SessionPool

namespace Gateway

variable {ι σ M ρ : Type} [DecidableEq ι] [DecidableEq ρ] {lib : HttpLibraries M ρ}
variable {state : ApiState ρ} {g g' : Gateway ι σ} {e : Event ι σ} {i : ι}
variable {ts : List (Transition (Gateway ι σ) (Event ι σ))}

/-- A pool has the queries of the requests. -/
theorem Step.carried_cases (h : Step lib state g e g') {k : ℕ} {q : Query}
    (hi : ((g'.pools k).queries i).bind SessionPool.carried = some q) :
    ((g.pools k).queries i).bind SessionPool.carried = some q ∨
      ∃ call, calls i ⟨g, e, g'⟩ = some call ∧ call.pool = k ∧ q = call.encoded lib := by
  have hmoves := h.moves k
  cases hown : (part lib state k).own g e with
  | none =>
    have hstays : g'.pools k = g.pools k := hmoves.stays hown
    exact .inl (by rwa [hstays] at hi)
  | some e' =>
    rcases (SessionPool.Step.of_step (hmoves.moves e' hown)).carried_cases hi with hold | rfl
    · exact .inl hold
    · obtain ⟨-, -, call, -, -, hk, rfl, hcalls⟩ := h.calls_of_own hown
      exact .inr ⟨call, hcalls, hk, rfl⟩

theorem asked_of_run {pools : ℕ → SessionPool ι σ PoolAnswer}
    (hpools : ∀ k i, (pools k).queries i = none)
    (hrun : Run (Gateway.step lib state) (initial pools) ts g) {k : ℕ} {q : Query}
    (hi : ((g.pools k).queries i).bind SessionPool.carried = some q) :
    ∃ call ∈ called ts i, call.pool = k ∧ q = call.encoded lib := by
  induction hrun with
  | nil =>
    rw [show (initial pools).pools k = pools k from rfl, hpools] at hi
    cases hi
  | snoc _ hstep ih =>
    rcases (Step.of_step hstep).carried_cases hi with hold | ⟨call, hcalls, hcall⟩
    · obtain ⟨call, hmem, hcall⟩ := ih hold
      exact ⟨call, by rw [called_snoc]; exact List.mem_append_left _ hmem, hcall⟩
    · exact ⟨call, by rw [called_snoc, hcalls]; simp, hcall⟩

end Gateway

namespace Deployment

variable {ι σ M ρ : Type} [DecidableEq ι] [DecidableEq ρ] [DecidableEq Value]
variable {setup : DeploymentSetup M ρ} {members : ℕ → List (SessionPool.SessionMember σ)} {now : ℕ}
variable {d d' : Deployment ι σ} {e : Event ι σ} {i : ι} {k j : ℕ}
variable {ts us : List (Transition (Deployment ι σ) (Event ι σ))}

/-- The queries that the request `i` has made. -/
def called (ts : List (Transition (Deployment ι σ) (Event ι σ))) (i : ι) : List HttpCall :=
  Gateway.called (server.project ts) i

/-- The members of the pool `k` to whose caches the request `i` was handed. -/
def handed (setup : DeploymentSetup M ρ) (k : ℕ)
    (ts : List (Transition (Deployment ι σ) (Event ι σ))) (i : ι) : List ℕ :=
  SessionPool.handed ((Gateway.part setup.lib setup.state k).project (server.project ts)) i

omit [DecidableEq Value] in
theorem called_append : (called (ts ++ us) i : List HttpCall) = called ts i ++ called us i := by
  unfold called Gateway.called
  rw [Part.project_append, List.filterMap_append]

/-- A query comes to a cache from its pool. -/
theorem enter_of_own (h : Step setup d e d') {q : Query}
    (hown : cacheEvent k j d e = some (.arrive i q)) :
    e = .enter k i ∧ d.chosen k i = some (j, q) := by
  cases h with
  | @enter k' i' j' q' g c hchosen =>
    simp only [cacheEvent, hchosen] at hown
    split_ifs at hown with hkj
    obtain ⟨rfl, rfl⟩ := hkj
    cases hown
    exact ⟨rfl, hchosen⟩
  | @cache k' j' e' c hinner =>
    simp only [cacheEvent] at hown
    split_ifs at hown
    cases hown
    cases hinner
  | leave hwaiting => simp [cacheEvent, hwaiting] at hown
  | quit hwaiting hworking =>
    simp only [cacheEvent, hwaiting] at hown
    split_ifs at hown
    cases hown
  | front | answer | advance => cases hown
  | session | client | stop =>
    simp only [cacheEvent] at hown
    split_ifs at hown
    cases hown

omit [DecidableEq ρ] [DecidableEq Value] in
theorem handed_append : handed setup k (ts ++ us) i = handed setup k ts i ++ handed setup k us i := by
  unfold handed SessionPool.handed
  rw [Part.project_append, Part.project_append, List.filterMap_append]

omit [DecidableEq ι] [DecidableEq Value] in
theorem chosen_eq_some {q : Query} :
    d.chosen k i = some (j, q) ↔ (d.gateway.pools k).queries i = some (.chosen q j) := by
  unfold chosen
  constructor
  · intro h
    split at h
    · next hstage =>
      cases h
      exact hstage
    · cases h
  · intro h
    rw [h]

omit [DecidableEq Value] in
theorem pool_run (hrun : Run (Gateway.step setup.lib setup.state)
    (initial members now : Deployment ι σ).gateway (server.project ts) d.gateway) (k : ℕ) :
    Run SessionPool.step (.initial (members k) now)
      ((Gateway.part setup.lib setup.state k).project (server.project ts)) (d.gateway.pools k) :=
  Gateway.runs_pool hrun k

/-- What a query has behind it when it is about to enter a cache. -/
theorem called_of_chosen (hrun : Run (step setup) (initial members now) ts d) {q : Query}
    (hchosen : d.chosen k i = some (j, q)) :
    ∃ call ∈ called ts i, call.pool = k ∧ q = call.encoded setup.lib ∧ j < (members k).length := by
  have hgateway := runs_gateway hrun
  have hstage := chosen_eq_some.1 hchosen
  obtain ⟨call, hcall, hpool, hquery⟩ := Gateway.asked_of_run (fun k i => rfl) hgateway
    (show ((d.gateway.pools k).queries i).bind SessionPool.carried = some q by
      rw [hstage]
      rfl)
  exact ⟨call, hcall, hpool, hquery,
    SessionPool.chosen_lt_of_run (pool_run hgateway k) (fun _ => rfl) hstage⟩

theorem called_of_enter (hrun : Run (step setup) (initial members now) ts d) {q : Query}
    {t : Transition (Deployment ι σ) (Event ι σ)} (ht : t ∈ ts)
    (hchosen : t.before.chosen k i = some (j, q)) :
    ∃ call ∈ called ts i, call.pool = k ∧ q = call.encoded setup.lib ∧ j < (members k).length := by
  obtain ⟨a, b, rfl⟩ := List.append_of_mem ht
  obtain ⟨call, hcall, h⟩ := called_of_chosen hrun.around.1 hchosen
  refine ⟨call, ?_, h⟩
  rw [called_append]
  exact List.mem_append_left _ hcall

omit [DecidableEq ρ] [DecidableEq Value] in
/-- The pool has handed on what enters a cache. -/
theorem handed_of_enter {q : Query} {t : Transition (Deployment ι σ) (Event ι σ)}
    (ht : t ∈ ts) (he : t.event = .enter k i) (hchosen : t.before.chosen k i = some (j, q)) :
    j ∈ handed setup k ts i := by
  have hserver : (⟨t.before.gateway, .pool k (.enter i), t.after.gateway⟩ :
      Transition (Gateway ι σ) (Gateway.Event ι σ)) ∈ server.project ts :=
    (Part.mem_project _).2 ⟨t, ht, by rw [he]; rfl, rfl, rfl⟩
  have hpool : (⟨t.before.gateway.pools k, .enter i, t.after.gateway.pools k⟩ :
      Transition (SessionPool ι σ PoolAnswer) (SessionPool.Event ι σ PoolAnswer)) ∈
      (Gateway.part setup.lib setup.state k).project (server.project ts) :=
    (Part.mem_project _).2 ⟨_, hserver, if_pos rfl, rfl, rfl⟩
  refine List.mem_filterMap.2 ⟨_, hpool, ?_⟩
  simp [SessionPool.hands, chosen_eq_some.1 hchosen]

theorem handed_cases (hrun : Run (step setup) (initial members now) ts d) (k : ℕ) (i : ι) :
    handed setup k ts i = [] ∨ ∃ j, handed setup k ts i = [j] :=
  (SessionPool.trace_of_run (pool_run (runs_gateway hrun) k) (fun _ => rfl) i).handed_cases

/-- A cache knows a request by the query that the request has made of its pool. -/
theorem cached_of_run (hrun : Run (step setup) (initial members now) ts d)
    {caller : Caller Value} (hi : (d.caches k j).callers i = some caller) :
    j ∈ handed setup k ts i ∧ ∃ call ∈ called ts i, call.pool = k ∧
      caller.query = call.encoded setup.lib ∧ j < (members k).length := by
  obtain ⟨t, ht, he⟩ := QueryCache.arrived_of_run (runs_cache hrun k j) hi
  obtain ⟨t, ht, hown, -, -⟩ := (Part.mem_project _).1 ht
  rw [he] at hown
  obtain ⟨he, hchosen⟩ := enter_of_own (Step.of_step (hrun.step_of_mem ht)) hown
  exact ⟨handed_of_enter ht he hchosen, called_of_enter hrun ht hchosen⟩

/-- At most one query for a request. -/
theorem called_cases (hrun : Run (step setup) (initial members now) ts d) (i : ι) :
    called ts i = [] ∨ ∃ stage call, d.gateway.requests i = some stage ∧ called ts i = [call] ∧
      Gateway.Called setup.lib setup.state stage.request call :=
  (Gateway.trace_of_run (runs_gateway hrun) i).called_cases

/-- No two caches know the same request. -/
theorem cache_unique (hrun : Run (step setup) (initial members now) ts d) {call : HttpCall}
    (hcall : called ts i = [call]) (hj : j ∈ handed setup call.pool ts i) {k' j' : ℕ}
    (hi : (d.caches k' j').callers i ≠ none) : k' = call.pool ∧ j' = j := by
  obtain ⟨caller, hcaller⟩ := Option.ne_none_iff_exists'.1 hi
  obtain ⟨hj', call', hcall', rfl, -⟩ := cached_of_run hrun hcaller
  rw [hcall, List.mem_singleton] at hcall'
  subst hcall'
  refine ⟨rfl, ?_⟩
  rcases handed_cases hrun call'.pool i with hnone | ⟨c, hc⟩
  · rw [hnone] at hj
    cases hj
  · rw [hc, List.mem_singleton] at hj hj'
    rw [hj, hj']

/-! ### The history of an answer -/

/-- The session of the member `j` of the pool `k`. -/
def session (d : Deployment ι σ) (k j : ℕ) : ℕ := ((d.gateway.pools k).members j).generation

/-- A call of `execute` of the member `j` under its session `g`, for the method and the request of `q`,
is answered, and `response` is the JSON of its message. -/
def Upstream (codec : Codec Value) (k j g : ℕ) (q : Query) (response : CachedResponse Value)
    (t : Transition (Deployment ι σ) (Event ι σ)) : Prop :=
  ∃ f q' answer, t.event = .cache k j (.answer f (.ok answer)) ∧
    (t.before.caches k j).tasks f = some ⟨q.key g, q', .executing⟩ ∧
    q'.variant = q.variant ∧ q'.request = q.request ∧ answer.generation = g ∧
    codec.toJson answer.message = some response.json

/-- The cache of the member `j` has served the query of the request `i`: from where that has read the
session to where it returns, the session was never replaced, and before the return `response` was
obtained under this session. -/
def Served (codec : Codec Value) (ts : List (Transition (Deployment ι σ) (Event ι σ))) (k j : ℕ) (i : ι)
    (q : Query) (response : CachedResponse Value) : Prop :=
  ∃ g a c b v w, ts = a ++ c :: (b ++ v :: w) ∧ c.event = .cache k j (.capture i) ∧
    (v.event = .cache k j (.hitReturn i) ∨ v.event = .cache k j (.finish i)) ∧
    session c.before k j = g ∧ session v.before k j = g ∧
    (∀ t ∈ b, session t.before k j = g ∧ ∀ queryError, t.event ≠ .session k j queryError) ∧
    ∃ o ∈ a ++ c :: b, Upstream codec k j g q response o

omit [DecidableEq ι] [DecidableEq Value] in
theorem Served.append {codec : Codec Value} {q : Query} {response : CachedResponse Value}
    (h : Served codec ts k j i q response) : Served codec (ts ++ us) k j i q response := by
  obtain ⟨g, a, c, b, v, w, rfl, h⟩ := h
  exact ⟨g, a, c, b, v, w ++ us, by simp, h⟩

omit [DecidableEq ι] [DecidableEq Value] in
/-- What a cache does of its own is an event of that cache. -/
theorem cache_of_own {e' : QueryCache.Event ι Value} (hown : cacheEvent k j d e = some e')
    (hinner : outer e' = false) : e = .cache k j e' := by
  cases e with
  | cache k' j' e =>
    simp only [cacheEvent] at hown
    split_ifs at hown with hkj
    obtain ⟨rfl, rfl⟩ := hkj
    cases hown
    rfl
  | enter k' i' =>
    simp only [cacheEvent] at hown
    split at hown
    · split_ifs at hown
      cases hown
      cases hinner
    · cases hown
  | disconnect i' =>
    simp only [cacheEvent] at hown
    split at hown
    · split_ifs at hown
      cases hown
      cases hinner
    · cases hown
  | session | client | stop =>
    simp only [cacheEvent] at hown
    split_ifs at hown
    cases hown
    cases hinner
  | advance =>
    cases hown
    cases hinner
  | front | answer => cases hown

theorem session_of_replace (h : Step setup d e d') {queryError : Bool → Option ClientError}
    (he : e = .session k j queryError) : session d' k j = session d k j + 1 := by
  subst he
  cases h with
  | session hg =>
    obtain ⟨hp, -⟩ := pools_of_pool hg
    unfold session
    rw [setCache_gateway, ← Option.some.inj hp, SessionPool.setMember_members, Function.update_self]

/-- A session that is the same at both ends of a run was never replaced. -/
theorem session_of_run (hrun : Run (step setup) d ts d') (hsame : session d k j = session d' k j)
    {t : Transition (Deployment ι σ) (Event ι σ)} (ht : t ∈ ts) :
    session t.before k j = session d k j ∧ ∀ queryError, t.event ≠ .session k j queryError := by
  obtain ⟨a, b, rfl⟩ := List.append_of_mem ht
  obtain ⟨hbefore, hstep, hafter⟩ := hrun.around
  have hle : session d k j ≤ session t.before k j := generation_le_of_run hbefore k j
  have hmid : session t.before k j ≤ session t.after k j :=
    generation_le_of_run (Run.single hstep) k j
  have hge : session t.after k j ≤ session d' k j := generation_le_of_run hafter k j
  refine ⟨by omega, fun queryError he => ?_⟩
  have hreplaced := session_of_replace (Step.of_step hstep) he
  omega

/-- What a cache returns it has served. -/
theorem served_of_returned (hrun : Run (step setup) (initial members now) ts d) {q : Query}
    {flight : Option ℕ} {response : CachedResponse Value} {status : CacheStatus}
    (hi : (d.caches k j).callers i = some ⟨q, .returned flight (.ok (response, status))⟩) :
    Served setup.codec ts k j i q response := by
  obtain ⟨g, a', c', b', v', w', hproject, hcaptures, hreturns, o', ho', hcalls⟩ :=
    QueryCache.spanned_of_run (runs_cache hrun k j) hi
  obtain ⟨a, c, l, rfl, ha, hl, hc, hcview, -⟩ := (behind k j).split_project hproject
  obtain ⟨b, v, w, rfl, hb, -, hv, hvview, -⟩ := (behind k j).split_project hl
  have hopen : Run (step setup) (initial members now) (a ++ c :: b) v.before := by
    have hrun' : Run (step setup) (initial members now) ((a ++ c :: b) ++ v :: w) d := by
      simpa using hrun
    exact hrun'.around.1
  obtain ⟨hbefore, hstep, hbetween⟩ := hopen.around
  -- the cache reads the session of its member
  have hsession {m : Deployment ι σ} {us : List (Transition (Deployment ι σ) (Event ι σ))}
      (hm : Run (step setup) (initial members now) us m) :
      session m k j = (m.caches k j).generation :=
    congrArg SharedView.generation ((coherent_of_run hm (coherent_initial members now)) k j).symm
  have hcg : session c.before k j = g := by
    rw [hsession hbefore, ← hcaptures.2, ← hcview]
    rfl
  have hvg : session v.before k j = g := by
    rw [hsession hopen, ← hreturns.2, ← hvview]
    rfl
  have hspan : Run (step setup) c.before (c :: b) v.before := (Run.single hstep).append hbetween
  have hkept : ∀ t ∈ b, session t.before k j = g ∧
      ∀ queryError, t.event ≠ .session k j queryError := by
    intro t ht
    rw [← hcg]
    exact session_of_run hspan (hcg.trans hvg.symm) (List.mem_cons_of_mem _ ht)
  refine ⟨g, a, c, b, v, w, rfl, ?_, ?_, hcg, hvg, hkept, ?_⟩
  · rw [hcaptures.1] at hc
    exact cache_of_own hc rfl
  · rcases hreturns.1 with he | he <;> rw [he] at hv
    · exact .inl (cache_of_own hv rfl)
    · exact .inr (cache_of_own hv rfl)
  · have hmem : ∃ o ∈ a ++ c :: b, cacheEvent k j o.before o.event = some o'.event ∧
        o.before.caches k j = o'.before := by
      rcases List.mem_append.1 ho' with ho' | ho'
      · obtain ⟨o, ho, hown, hview, -⟩ := (Part.mem_project _).1 (ha ▸ ho')
        exact ⟨o, List.mem_append_left _ ho, hown, hview⟩
      · rcases List.mem_cons.1 ho' with rfl | ho'
        · exact ⟨c, by simp, hc, hcview⟩
        · obtain ⟨o, ho, hown, hview, -⟩ := (Part.mem_project _).1 (hb ▸ ho')
          exact ⟨o, by simp [ho], hown, hview⟩
    obtain ⟨f, q', answer, he, htask, hvariant, hrequest, hgeneration, hjson⟩ := hcalls
    obtain ⟨o, ho, hown, hview⟩ := hmem
    rw [he] at hown
    refine ⟨o, ho, f, q', answer, cache_of_own hown rfl, ?_, hvariant, hrequest, hgeneration, hjson⟩
    rw [← htask, ← hview]

/-- The result of a pool is the result of a cache. -/
theorem answer_of_gateway (hrun : Run (step setup) d ts d')
    {result : Except ClientError PoolAnswer} {t : Transition (Gateway ι σ) (Gateway.Event ι σ)}
    (ht : t ∈ server.project ts) (he : t.event = .pool k (.answer i result)) :
    ∃ t ∈ ts, t.before.result k i = some result := by
  obtain ⟨⟨before, event, after⟩, ht, hown, -, -⟩ := (Part.mem_project _).1 ht
  rw [he] at hown
  have hstep : Step setup before event after := Step.of_step (hrun.step_of_mem ht)
  dsimp only at hown
  refine ⟨_, ht, ?_⟩
  cases hstep with
  | @front e g hcross =>
    cases hown
    cases hcross
  | answer hresult =>
    simp only [server, gatewayEvent, hresult, Option.map_some] at hown
    cases hown
    exact hresult
  | enter | cache | leave | quit | session | client | stop | advance => cases hown

omit [DecidableEq ι] [DecidableEq Value] in
theorem result_eq_some {result : Except ClientError PoolAnswer} (h : d.result k i = some result) :
    ∃ j q flight, (d.caches k j).callers i = some ⟨q, .returned flight result⟩ := by
  unfold Deployment.result at h
  obtain ⟨j, -, hj⟩ := Option.bind_eq_some_iff.1 h
  split at hj
  · next q flight result' hcaller =>
    cases hj
    exact ⟨j, q, flight, hcaller⟩
  · cases hj

/-- **Where the data of a response come from.**  A response with data answers a request with the key and
one query of a permitted method.  One member of the pool which that selects has served the query: the
data are the JSON of a message that the upstream has answered to a call of this member for the same
method and request, projected in the public mode, and from the moment the cache has read the session of
the member up to its return that session was not replaced.  No other cache has seen the request. -/
theorem data_provenance (hrun : Run (step setup) (initial members now) ts d) {request : HttpRequest}
    {response : HttpResponse} (hi : d.gateway.requests i = some (.closed request response))
    {json : Value} (hjson : response.body = .data json) :
    ∃ call j answer, called ts i = [call] ∧
      Gateway.Called setup.lib setup.state request call ∧ j < (members call.pool).length ∧
      Served setup.codec ts call.pool j i (call.encoded setup.lib) answer ∧
      shown setup.lib setup.state.mode call.method answer.json = .ok json ∧
      ∀ k' j', (d.caches k' j').callers i ≠ none → k' = call.pool ∧ j' = j := by
  have htrace := Gateway.trace_of_run (runs_gateway hrun) i
  rw [hi] at htrace
  cases htrace with
  | @closed _ response id hsource =>
    rw [HttpResponse.tagged_body] at hjson
    cases hsource with
    | refused hc hdata => exact absurd ⟨json, hjson⟩ hdata
    | @answered call result hc hcalled hr =>
      obtain ⟨⟨answer, status⟩, rfl, hshown, -⟩ := Gateway.respond_data hjson
      obtain ⟨t, ht, he⟩ := hr.answered (fun _ _ => rfl) (runs_gateway hrun)
      obtain ⟨t, ht, hresult⟩ := answer_of_gateway hrun ht he
      obtain ⟨j, q, flight, hcaller⟩ := result_eq_some hresult
      obtain ⟨a, b, rfl⟩ := List.append_of_mem ht
      have hbefore := hrun.around.1
      obtain ⟨hj, call', hcall', -, rfl, hlt⟩ := cached_of_run hbefore hcaller
      have hsame : call' = call := by
        have hmem : call' ∈ called (a ++ t :: b) i := by
          rw [called_append]
          exact List.mem_append_left _ hcall'
        rwa [show called (a ++ t :: b) i = [call] from hc, List.mem_singleton] at hmem
      subst hsame
      refine ⟨call', j, answer, hc, hcalled, hlt, (served_of_returned hbefore hcaller).append, hshown, ?_⟩
      intro k' j' hi'
      refine cache_unique hrun hc ?_ hi'
      rw [handed_append]
      exact List.mem_append_left _ hj

end Deployment

/-! ### A sample deployment -/

namespace Deployment

open Gateway (announcementsRequest)

/-- One member in each pool. -/
def loneMember (_ : ℕ) : List (SessionPool.SessionMember Unit) := [⟨0, fun _ => none, none⟩]

/-- The JSON of a message without fields. -/
def emptyCodec : Codec Value where
  toJson := fun message =>
    match message with
    | .plain _ [] => some (.object [])
    | _ => none
  size := fun json =>
    match json with
    | .object [] => some 2
    | _ => none

def plainSetup : DeploymentSetup Empty FormText.Bytes :=
  ⟨plainLibraries, twoRegions, emptyCodec, QueryCache.sampleCacheOptions⟩

/-- The request `i` comes and is handed to the cache of the member. -/
def askEvents (i : ℕ) : List (Event ℕ Unit) :=
  [.front (.arrive i announcementsRequest), .front (.authenticate i), .front (.handle i false),
    .front (.body i (some [])), .front (.pool 0 (.lock i)), .front (.pool 0 (.examine i)), .enter 0 i,
    .cache 0 0 (.begin i), .cache 0 0 (.capture i), .cache 0 0 (.lookup i)]

/-- The first flight of the cache. -/
def upstreamEvents : List (Event ℕ Unit) :=
  [.cache 0 0 (.execute 0),
    .cache 0 0 (.answer 0 (.ok ⟨.plain QueryVariant.announcements.method.output [], 0, 0⟩)),
    .cache 0 0 (.relock 0), .cache 0 0 (.publish 0)]

/-- The request `i` returns the outcome of its flight. -/
def replyEvents (i : ℕ) : List (Event ℕ Unit) :=
  [.cache 0 0 (.wake i), .cache 0 0 (.errorCheck i), .cache 0 0 (.finish i), .answer 0 i,
    .front (.respond i), .front (.finish i "a")]

/-- Two requests for the same, in one flight. -/
def sharedEvents : List (Event ℕ Unit) :=
  askEvents 0 ++ askEvents 1 ++ upstreamEvents ++ replyEvents 0 ++ replyEvents 1

/-- The steps of the sample deployment; no event of it needs to compare JSON values. -/
noncomputable abbrev plainStep : Deployment ℕ Unit → Event ℕ Unit → Option (Deployment ℕ Unit) :=
  @step _ _ _ _ _ _ (Classical.decEq Value) plainSetup

theorem shared_isSome : (exec plainStep (initial loneMember 0) sharedEvents).isSome = true := by
  decide +kernel

noncomputable def sharedDeployment : Deployment ℕ Unit :=
  (exec plainStep (initial loneMember 0) sharedEvents).get shared_isSome

noncomputable def sharedRun : List (Transition (Deployment ℕ Unit) (Event ℕ Unit)) :=
  transitions plainStep (initial loneMember 0) sharedEvents

theorem run_shared : Run plainStep (initial loneMember 0) sharedRun sharedDeployment := run_get _ _

theorem exists_closed_shared : ∃ request response json,
    sharedDeployment.gateway.requests 1 = some (.closed request response) ∧
      response.body = .data json := by
  have hshows : Gateway.showsData (sharedDeployment.gateway.requests 1) = true := by decide +kernel
  unfold Gateway.showsData at hshows
  split at hshows
  · next request _ _ json hclosed => exact ⟨request, _, json, hclosed, rfl⟩
  · cases hshows

theorem data_provenance_shared : ∃ (call : HttpCall) (j : ℕ) (answer : CachedResponse Value),
    Served emptyCodec sharedRun call.pool j 1 (call.encoded plainLibraries) answer := by
  obtain ⟨request, response, json, hclosed, hjson⟩ := exists_closed_shared
  obtain ⟨call, j, answer, -, -, -, hserved, -⟩ :=
    @data_provenance _ _ _ _ _ _ (Classical.decEq Value) plainSetup loneMember 0 _ _ _ run_shared _ _
      hclosed _ hjson
  exact ⟨call, j, answer, hserved⟩

end Deployment

end MoenotesApi
