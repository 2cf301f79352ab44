import MoenotesApi.Cache.Settling
import MoenotesApi.Deployment.Demand
import MoenotesApi.Gateway.Settling

/-!
# Every request comes to its end

The server, its pools and their caches wait for each other, and only for what the next of them does.

* `Working`: a query that a pool has handed to a cache is known to that cache, which has not dropped it;
* `serving`, `selecting`, `fetching`: the steps of the server, of its pools and of their caches, each
  bounded by the requests that have arrived;
* `canProceed_of_request`: while a request is open, somebody can go on;
* `server_settles`: both together.
-/

namespace MoenotesApi

open JsonTree (Value)
open Runs

namespace SessionPool

variable {ι σ α : Type} [DecidableEq ι] {p p' : SessionPool ι σ α} {e : Event ι σ α} {i : ι}

/-- A query runs in a cache after it has entered it. -/
theorem Step.running_cases (h : Step p e p') {j n : ℕ} (hi : p'.queries i = some (.running j n)) :
    p.queries i = some (.running j n) ∨ e = .enter i ∧ ∃ q, p.queries i = some (.chosen q j) := by
  have other {k : ι} {stage : PoolStage α} {rest : Prop}
      (hi : Function.update p.queries k (some stage) i = some (.running j n))
      (hne : stage ≠ .running j n) : p.queries i = some (.running j n) ∨ rest := by
    left
    by_cases hik : i = k
    · subst hik
      rw [Function.update_self] at hi
      exact absurd (Option.some.inj hi) hne
    · rwa [Function.update_of_ne hik] at hi
  cases h with
  | @enter k q j' hk =>
    by_cases hik : i = k
    · subst hik
      rw [setQuery_queries, Function.update_self] at hi
      cases hi
      exact .inr ⟨rfl, q, hk⟩
    · rw [setQuery_queries, Function.update_of_ne hik] at hi
      exact .inl hi
  | @query k q =>
    refine other hi ?_
    rcases arrive_cases p q with harrive | ⟨error, harrive⟩ <;> rw [harrive] <;> simp
  | @answer k j' g result =>
    refine other hi ?_
    rcases answered_cases p j' g result with hs | ⟨error, -, -, hs⟩ <;> rw [hs] <;> simp
  | examineRefused | examinePicked =>
    simp only [setQuery_queries, preflight_queries] at hi
    exact other hi (by simp)
  | lock | examineEnd | checkFailed | check | stamp | write | drop => exact other hi (by simp)
  | inspect | session | client | stop | advance => exact .inl hi

end SessionPool

namespace Gateway

variable {ι σ M ρ : Type} [DecidableEq ι] [DecidableEq ρ] {lib : HttpLibraries M ρ}
variable {state : ApiState ρ} {g g' : Gateway ι σ} {e : Event ι σ} {i : ι}

theorem Step.running_cases (h : Step lib state g e g') {k j n : ℕ}
    (hi : (g'.pools k).queries i = some (.running j n)) :
    (g.pools k).queries i = some (.running j n) ∨
      e = .pool k (.enter i) ∧ ∃ q, (g.pools k).queries i = some (.chosen q j) := by
  have hmoves := h.moves k
  cases hown : (part lib state k).own g e with
  | none =>
    have hstays : g'.pools k = g.pools k := hmoves.stays hown
    exact .inl (by rwa [hstays] at hi)
  | some d =>
    rcases (SessionPool.Step.of_step (hmoves.moves d hown)).running_cases hi with
      hold | ⟨rfl, hchosen⟩
    · exact .inl hold
    · refine .inr ⟨?_, hchosen⟩
      cases h with
      | @pool k' e' p =>
        simp only [part, poolEvent] at hown
        split_ifs at hown with hk
        subst hk
        cases hown
        rfl
      | reject hj hcall => simp [part, poolEvent, hj, hcall] at hown
      | leave hj => simp [part, poolEvent, hj] at hown
      | query hj hcall =>
        simp only [part, poolEvent, hj, hcall] at hown
        split_ifs at hown
        cases hown
      | quit hj =>
        simp only [part, poolEvent, hj] at hown
        split_ifs at hown
        cases hown
      | arrive | refuse | letIn | read | reply | respond | finish | advance => cases hown

end Gateway

namespace Deployment

variable {ι σ M ρ : Type} [DecidableEq ι]
variable {d d' : Deployment ι σ} {e : Event ι σ} {i : ι} {k j : ℕ}
variable {ts us : List (Transition (Deployment ι σ) (Event ι σ))}

/-- A request, a query of a pool, or a caller or a flight of a cache goes on. -/
def Event.proceeds : Event ι σ → Bool
  | .front (.pool _ e) => e.proceeds
  | .front e => e.proceeds
  | .enter _ _ | .answer _ _ => true
  | .cache _ _ e => e.proceeds
  | _ => false

def proceeds (t : Transition (Deployment ι σ) (Event ι σ)) : Bool := t.event.proceeds

/-! ### Queries in a cache -/

/-- A query that a pool has handed to a cache is known to that cache. -/
def Working (d : Deployment ι σ) : Prop :=
  ∀ k i j n, (d.gateway.pools k).queries i = some (.running j n) →
    ∃ q stage, (d.caches k j).callers i = some ⟨q, stage⟩ ∧ stage ≠ .dropped

variable [DecidableEq ρ] [DecidableEq Value] {setup : DeploymentSetup M ρ}

/-- A query runs in a cache after it has entered it, until the request is dropped. -/
theorem Step.running_cases (h : Step setup d e d') {n : ℕ}
    (hi : (d'.gateway.pools k).queries i = some (.running j n)) :
    (d.gateway.pools k).queries i = some (.running j n) ∧ cacheEvent k j d e ≠ some (.drop i) ∨
      e = .enter k i ∧ ∃ q, d.chosen k i = some (j, q) := by
  have before {e' : Gateway.Event ι σ} {g : Gateway ι σ}
      (hg : d.gateway.step setup.lib setup.state e' = some g) (hd : d'.gateway = g)
      (he : ∀ k i, e' ≠ .pool k (.enter i)) (hcache : cacheEvent k j d e ≠ some (.drop i)) :
      (d.gateway.pools k).queries i = some (.running j n) ∧ cacheEvent k j d e ≠ some (.drop i) := by
    subst hd
    rcases (Gateway.Step.of_step hg).running_cases hi with hold | ⟨henter, -⟩
    · exact ⟨hold, hcache⟩
    · exact absurd henter (he k i)
  cases h with
  | @front e' g he hg =>
    refine .inl (before hg rfl ?_ (by simp [cacheEvent]))
    rintro k i rfl
    cases he
  | @enter k' i' j' q g c hchosen hg hc =>
    rcases (Gateway.Step.of_step hg).running_cases hi with hold | ⟨henter, q', hstage⟩
    · refine .inl ⟨hold, ?_⟩
      simp only [cacheEvent, hchosen]
      split_ifs <;> simp
    · cases henter
      exact .inr ⟨rfl, q', chosen_eq_some.2 hstage⟩
  | answer hresult hg => exact .inl (before hg rfl (by simp) (by simp [cacheEvent]))
  | @cache k' j' e' c he hc =>
    refine .inl ⟨hi, ?_⟩
    simp only [cacheEvent]
    split_ifs
    · rintro ⟨⟩
      cases he
    · simp
  | leave hwaiting hg =>
    exact .inl (before hg rfl (by simp) (by simp [cacheEvent, hwaiting]))
  | @quit i' k' j' g c hwaiting hworking hg hc =>
    refine .inl (before hg rfl (by simp) ?_)
    intro hdrop
    simp only [cacheEvent, hwaiting] at hdrop
    split_ifs at hdrop with hkj
    cases hdrop
    obtain ⟨rfl, -⟩ := hkj
    -- the pool drops the query as well
    cases Gateway.Step.of_step hg with
    | leave hleave => simp [Deployment.waiting, hleave] at hwaiting
    | @quit _ request call p hquit hp =>
      simp only [Deployment.waiting, hquit, Option.some.injEq] at hwaiting
      subst hwaiting
      cases SessionPool.Step.of_step hp with
      | drop => simp at hi
  | session hg | client hg =>
    refine .inl (before hg rfl (by simp) ?_)
    simp only [cacheEvent]
    split_ifs <;> simp
  | stop hg =>
    refine .inl (before hg rfl (by simp) ?_)
    simp only [cacheEvent]
    split_ifs <;> simp
  | advance hg => exact .inl (before hg rfl (by simp) (by simp [cacheEvent]))

theorem Working.step (h : Working d) (hs : Step setup d e d') : Working d' := by
  intro k i j n hi
  rcases hs.running_cases hi with ⟨hold, hdrop⟩ | ⟨rfl, q, hchosen⟩
  · obtain ⟨q, stage, hcaller, hstage⟩ := h k i j n hold
    have hmoves := hs.moves_cache k j
    cases hown : cacheEvent k j d e with
    | none =>
      have hstays : d'.caches k j = d.caches k j := hmoves.stays hown
      exact ⟨q, stage, by rw [hstays, hcaller], hstage⟩
    | some e' =>
      have hundropped := (QueryCache.Step.of_step (hmoves.moves e' hown)).undropped hcaller hstage
        (by rintro rfl; exact hdrop hown)
      obtain ⟨stage', hcaller', hstage'⟩ := hundropped
      exact ⟨q, stage', hcaller', hstage'⟩
  · cases hs with
    | enter hchosen' hg hc =>
      obtain ⟨rfl, rfl⟩ := Prod.mk.inj (Option.some.inj (hchosen.symm.trans hchosen'))
      rw [setCache_self]
      cases QueryCache.Step.of_step hc with
      | arrive =>
        refine ⟨q, QueryCache.arrival setup.options q, by simp, ?_⟩
        unfold QueryCache.arrival
        split <;> simp

theorem working_of_run {members : ℕ → List (SessionPool.SessionMember σ)} {now : ℕ}
    (hrun : Run (step setup) (initial members now) ts d) : Working d := by
  refine hrun.invariant (fun _ _ _ hm he => hm.step (Step.of_step he)) ?_
  rintro k i j n ⟨⟩

/-! ### Somebody can go on -/

/-- Somebody can go on. -/
def CanProceed (setup : DeploymentSetup M ρ) (d : Deployment ι σ) : Prop :=
  ∃ e, e.proceeds = true ∧ (d.step setup e).isSome = true

omit [DecidableEq ι] [DecidableEq Value] in
theorem outer_of_proceeds {e : QueryCache.Event ι Value} (h : e.proceeds = true) : outer e = false := by
  cases e <;> first | rfl | cases h

/-- The server goes on alone. -/
theorem canProceed_of_front {e : Gateway.Event ι σ} (he : (Event.front e).proceeds = true)
    (hcross : crossing e = false) (h : (d.gateway.step setup.lib setup.state e).isSome = true) :
    CanProceed setup d :=
  ⟨.front e, he, by simp [step, hcross, stepGateway, h]⟩

/-- A cache goes on alone. -/
theorem canProceed_of_cache
    (h : QueryCache.CanProceed setup.codec setup.options (d.caches k j)) : CanProceed setup d := by
  obtain ⟨e, he, hstep⟩ := h
  exact ⟨.cache k j e, he, by simp [step, outer_of_proceeds he, stepCache, hstep]⟩

/-- A pool goes on, alone or together with a cache. -/
theorem canProceed_of_pool {members : ℕ → List (SessionPool.SessionMember σ)} {now : ℕ}
    (hrun : Run (step setup) (initial members now) ts d)
    (h : SessionPool.CanProceed (d.gateway.pools k)) : CanProceed setup d := by
  obtain ⟨e, he, hstep⟩ := h
  obtain ⟨p, hp⟩ := Option.isSome_iff_exists.1 hstep
  have alone (hinner : Gateway.inner e = true) (hcross : crossing (.pool k e) = false) :
      CanProceed setup d :=
    canProceed_of_front (e := .pool k e) he hcross (by simp [Gateway.step, hinner, hp])
  have hpool := SessionPool.Step.of_step hp
  cases e with
  | lock | examine | check | stamp | write => exact alone rfl rfl
  | enter i =>
    cases hpool with
    | @enter _ q j hi =>
      have hchosen : d.chosen k i = some (j, q) := chosen_eq_some.2 hi
      -- the cache does not know the query yet
      have hnew : (d.caches k j).callers i = none := by
        cases hcaller : (d.caches k j).callers i with
        | none => rfl
        | some caller =>
          have hhanded := (cached_of_run hrun hcaller).1
          have htrace := SessionPool.trace_of_run (pool_run (runs_gateway hrun) k) (fun _ => rfl) i
          rw [hi] at htrace
          cases htrace with
          | chosen hnone =>
            unfold handed at hhanded
            rw [hnone] at hhanded
            cases hhanded
      refine ⟨.enter k i, rfl, ?_⟩
      simp [step, hchosen, stepGateway, stepCache, Gateway.step, Gateway.inner, hp, QueryCache.step,
        hnew]
  | answer i result =>
    cases hpool with
    | @answer _ j n _ _ hi =>
      obtain ⟨q, stage, hcaller, hstage⟩ := working_of_run hrun k i j n hi
      cases hunderway : stage.underway with
      | true =>
        have hcache := runs_cache hrun k j
        exact canProceed_of_cache (QueryCache.enabled_of_underway (QueryCache.held_of_run hcache)
          (QueryCache.history_of_run hcache).2.1 hcaller hunderway)
      | false =>
        cases stage with
        | returned flight outcome =>
          have hresult : d.result k i = some outcome := by
            simp [Deployment.result, Deployment.working, hi, hcaller]
          refine ⟨.answer k i, rfl, ?_⟩
          simp [step, hresult, stepGateway, Gateway.step, Gateway.inner, SessionPool.step, hi,
            SessionPool.stepQuery]
        | dropped => exact absurd rfl hstage
        | arrived | unblocked | waiting | found | cleared | joined | woken | unlocked =>
          cases hunderway
  | query | drop | inspect | session | client | stop | advance => cases he

/-- While a request is open, somebody can go on. -/
theorem canProceed_of_request {members : ℕ → List (SessionPool.SessionMember σ)} {now : ℕ}
    (hrun : Run (step setup) (initial members now) ts d) {stage : RequestStage}
    (hi : d.gateway.requests i = some stage) (hopen : stage.inflight = true) : CanProceed setup d := by
  have hgateway := runs_gateway hrun
  cases stage with
  | begun request =>
    exact canProceed_of_front (e := .authenticate i) rfl rfl (by simp [Gateway.step, hi])
  | admitted request handler params =>
    exact canProceed_of_front (e := .handle i false) rfl rfl (by simp [Gateway.step, hi])
  | reading request handler params =>
    refine canProceed_of_front (e := .body i none) rfl rfl ?_
    cases hcall : handler.call setup.lib setup.state request params none with
    | error response => simp [Gateway.step, hi, hcall]
    | ok call => cases (call_eq_ok hcall).1
  | querying request call =>
    obtain ⟨stage, hstage, hdropped⟩ := Gateway.awaits_of_run hgateway i request call hi
    cases hunderway : stage.underway with
    | true =>
      have hholding : SessionPool.Holding (d.gateway.pools call.pool) := by
        refine SessionPool.holding_of_run (pool_run hgateway call.pool) ?_
        rintro i ⟨⟩
      exact canProceed_of_pool hrun (SessionPool.proceeds_of_underway hholding hstage hunderway)
    | false =>
      cases stage with
      | returned result =>
        exact canProceed_of_front (e := .respond i) rfl rfl (by simp [Gateway.step, hi, hstage])
      | dropped => exact absurd rfl hdropped
      | waiting | selecting | chosen | running | failed | checked | stamped => cases hunderway
  | answered request response =>
    exact canProceed_of_front (e := .finish i "") rfl rfl (by simp [Gateway.step, hi])
  | closed | dropped => cases hopen

/-! ### The work -/

/-- The server itself goes on with a request. -/
def serving (t : Transition (Deployment ι σ) (Event ι σ)) : Bool :=
  match t.event with
  | .front e => e.proceeds
  | _ => false

/-- The pool in which a query goes on. -/
def selecting (t : Transition (Deployment ι σ) (Event ι σ)) : Option ℕ :=
  match t.event with
  | .front (.pool k e) => if e.proceeds then some k else none
  | .enter k _ | .answer k _ => some k
  | _ => none

/-- The member in whose cache a caller or a flight goes on, with its pool. -/
def fetching (t : Transition (Deployment ι σ) (Event ι σ)) : Option (ℕ × ℕ) :=
  match t.event with
  | .cache k j e => if e.proceeds then some (k, j) else none
  | _ => none

/-- The pool of which a request makes its query. -/
def making (t : Transition (Deployment ι σ) (Event ι σ)) : Option ℕ :=
  match t.event with
  | .front (.body i _) =>
    match t.after.gateway.requests i with
    | some (.querying _ call) => some call.pool
    | _ => none
  | _ => none

omit [DecidableEq ι] [DecidableEq ρ] [DecidableEq Value] in
theorem countP_proceeds_le (ts : List (Transition (Deployment ι σ) (Event ι σ))) :
    ts.countP proceeds ≤
      ts.countP serving + (ts.filterMap selecting).length + (ts.filterMap fetching).length := by
  induction ts with
  | nil => exact Nat.zero_le _
  | cons t ts ih =>
    obtain ⟨before, event, after⟩ := t
    simp only [List.length_filterMap_eq_countP] at ih ⊢
    have hone : (proceeds (⟨before, event, after⟩ : Transition (Deployment ι σ) (Event ι σ))).toNat ≤
        (serving ⟨before, event, after⟩).toNat + (selecting ⟨before, event, after⟩).isSome.toNat +
          (fetching ⟨before, event, after⟩).isSome.toNat := by
      cases event with
      | front e =>
        cases e with
        | pool k e =>
          cases he : e.proceeds <;> simp [proceeds, Event.proceeds, serving, selecting, fetching, he]
        | _ => exact Nat.le_add_right_of_le (Nat.le_add_right _ _)
      | cache k j e => cases he : e.proceeds <;> simp [proceeds, Event.proceeds, fetching, he]
      | enter | answer => simp [proceeds, Event.proceeds, serving, selecting, fetching]
      | disconnect | session | client | stop | advance => exact Nat.zero_le _
    simp only [List.countP_cons]
    simp only [Bool.toNat, Bool.cond_eq_ite] at hone
    omega

omit [DecidableEq ι] [DecidableEq ρ] [DecidableEq Value] in
theorem length_making (ts : List (Transition (Deployment ι σ) (Event ι σ))) :
    (ts.filterMap making).length = (asked ts).length := by
  unfold asked
  rw [List.length_filterMap_eq_countP, List.length_filterMap_eq_countP]
  congr 1
  funext t
  unfold making asking
  cases t.event with
  | front e =>
    cases e with
    | body i body =>
      dsimp only
      rcases t.after.gateway.requests i with _ | stage
      · rfl
      · cases stage <;> rfl
    | _ => rfl
  | _ => rfl

section Bounds

variable {members : ℕ → List (SessionPool.SessionMember σ)} {now : ℕ}

/-- The server itself makes at most five steps for each request. -/
theorem countP_serving_le (hrun : Run (step setup) (initial members now) ts d) :
    ts.countP serving ≤ 5 * d.gateway.started := by
  refine le_trans ?_ (Gateway.bounded_of_run (runs_gateway hrun))
  rw [Part.countP_project]
  refine List.countP_mono_left fun t _ h => ?_
  unfold serving at h
  split at h
  · next e he => simpa [Part.transition, server, gatewayEvent, he, Gateway.proceeds] using h
  · cases h

/-- What happens to a query of a pool in a transition. -/
theorem pool_transition (hrun : Run (step setup) (initial members now) ts d) (k : ℕ) :
    (ts.filterMap selecting).count k ≤
      ((Gateway.part setup.lib setup.state k).project (server.project ts)).countP
        SessionPool.proceeds := by
  rw [List.count_filterMap, Part.countP_project, Part.countP_project]
  refine List.countP_mono_left fun t ht h => ?_
  obtain ⟨before, event, after⟩ := t
  have hstep : Step setup before event after := Step.of_step (hrun.step_of_mem ht)
  cases event with
  | front e =>
    cases e with
    | pool k' e =>
      cases he' : e.proceeds with
      | false => simp [selecting, he'] at h
      | true =>
        obtain rfl : k' = k := by simpa [selecting, he'] using h
        simp [Part.transition, server, gatewayEvent, Gateway.part, Gateway.poolEvent,
          SessionPool.proceeds, he']
    | _ => simp [selecting] at h
  | enter k' i =>
    obtain rfl : k' = k := by simpa [selecting] using h
    simp [Part.transition, server, gatewayEvent, Gateway.part, Gateway.poolEvent,
      SessionPool.proceeds, SessionPool.Event.proceeds]
  | answer k' i =>
    obtain rfl : k' = k := by simpa [selecting] using h
    cases hstep with
    | answer hresult =>
      simp [Part.transition, server, gatewayEvent, hresult, Gateway.part, Gateway.poolEvent,
        SessionPool.proceeds, SessionPool.Event.proceeds]
  | cache | disconnect | session | client | stop | advance => simp [selecting] at h

/-- The queries of a pool are made by requests. -/
theorem count_making (hrun : Run (step setup) (initial members now) ts d) (k : ℕ) :
    ((Gateway.part setup.lib setup.state k).project (server.project ts)).countP SessionPool.makes ≤
      (ts.filterMap making).count k := by
  rw [List.count_filterMap, Part.countP_project, Part.countP_project]
  refine List.countP_mono_left fun t ht h => ?_
  obtain ⟨t', ht', hmakes⟩ := (Option.any_eq_true _ _).1 h
  obtain ⟨e', hown', rfl⟩ := Option.map_eq_some_iff.1 ht'
  obtain ⟨t'', ht'', hmakes⟩ := (Option.any_eq_true _ _).1 hmakes
  obtain ⟨e'', hown'', rfl⟩ := Option.map_eq_some_iff.1 ht''
  cases e'' with
  | query i q =>
    have hmoves := (Step.of_step (hrun.step_of_mem ht)).moves_gateway
    have hstep := Gateway.Step.of_step (hmoves.moves _ hown')
    obtain ⟨body, request, call, rfl, hrequest, rfl, -⟩ := hstep.calls_of_own hown''
    obtain ⟨before, event, after⟩ := t
    cases event with
    | front e =>
      cases hown'
      have hafter : after.gateway.requests i = some (.querying request call) := hrequest
      simp [making, hafter]
    | answer k i =>
      obtain ⟨result, -, hresult⟩ := Option.map_eq_some_iff.1 hown'
      cases hresult
    | enter | disconnect | session | client | stop | advance => cases hown'
    | cache => cases hown'
  | _ => cases hmakes

/-- A pool with at most `n` members makes at most `n + 7` steps for each of its queries. -/
theorem length_selecting_le {n : ℕ} (hn : ∀ k, (members k).length ≤ n)
    (hrun : Run (step setup) (initial members now) ts d) :
    (ts.filterMap selecting).length ≤ (n + 7) * (asked ts).length := by
  rw [← length_making]
  refine length_le_of_count_le fun k => ?_
  calc (ts.filterMap selecting).count k
      ≤ ((Gateway.part setup.lib setup.state k).project (server.project ts)).countP
          SessionPool.proceeds := pool_transition hrun k
    _ ≤ ((members k).length + 7) *
          ((Gateway.part setup.lib setup.state k).project (server.project ts)).countP
            SessionPool.makes :=
      SessionPool.bounded_of_run (pool_run (runs_gateway hrun) k) fun _ => rfl
    _ ≤ (n + 7) * (ts.filterMap making).count k :=
      Nat.mul_le_mul (Nat.add_le_add_right (hn k) 7) (count_making hrun k)

/-- The caches make at most ten steps for each query that enters one of them. -/
theorem length_fetching_le (hrun : Run (step setup) (initial members now) ts d) :
    (ts.filterMap fetching).length ≤ 10 * (ts.filterMap entering).length := by
  refine length_le_of_count_le ?_
  rintro ⟨k, j⟩
  have hfetching : (ts.filterMap fetching).count (k, j) ≤
      ((behind k j).project ts).countP QueryCache.proceeds := by
    rw [List.count_filterMap, Part.countP_project]
    refine List.countP_mono_left fun t _ h => ?_
    unfold fetching at h
    split at h
    · next k' j' e he =>
      cases he' : e.proceeds with
      | false => simp [he'] at h
      | true =>
        obtain ⟨rfl, rfl⟩ : k' = k ∧ j' = j := by simpa [he'] using h
        simp [Part.transition, behind, he, cacheEvent, QueryCache.proceeds, he']
    · cases h
  calc (ts.filterMap fetching).count (k, j)
      ≤ ((behind k j).project ts).countP QueryCache.proceeds := hfetching
    _ ≤ 10 * ((behind k j).project ts).countP QueryCache.arrives :=
      QueryCache.bounded_of_run (runs_cache hrun k j)
    _ ≤ 10 * (ts.filterMap entering).count (k, j) :=
      Nat.mul_le_mul_left 10 (count_entering hrun k j)

/-- Every request that makes a query has arrived. -/
theorem length_asked_le (hrun : Run (step setup) (initial members now) ts d) :
    (asked ts).length ≤ d.gateway.started := by
  rw [← List.toFinset_card_of_nodup (nodup_asked hrun)]
  refine (Gateway.balanced_of_run (runs_gateway hrun)).started.card_le _ fun i hi => ?_
  rcases called_cases hrun i with hnone | ⟨stage, call, hstage, -⟩
  · exact absurd hnone (mem_asked.1 (List.mem_toFinset.1 hi))
  · rw [hstage]
    rfl

omit [DecidableEq ι] [DecidableEq Value] in
/-- Where no request is open, the counters are back where they began. -/
theorem quiet_of_closed {g : Gateway ι σ} (hg : Gateway.Balanced g)
    (h : ∀ i stage, g.requests i = some stage → stage.inflight = false) :
    g.inflight = 0 ∧ g.permits = admissionLimit := by
  have hopen (i : ι) : Gateway.unanswered (g.requests i) = false := by
    cases hi : g.requests i with
    | none => rfl
    | some stage => exact h i stage hi
  have hholds (i : ι) : Gateway.holds (g.requests i) = false := by
    cases hi : g.requests i with
    | none => rfl
    | some stage =>
      have hstage := h i stage hi
      cases stage <;> first | rfl | cases hstage
  obtain ⟨m, hm, hlimit⟩ := hg.permits
  obtain rfl : m = 0 := hm.unique (.zero hholds)
  exact ⟨hg.inflight.unique (.zero hopen), hlimit⟩

/-- **Every request comes to its end.**  However the requests, the pools, the caches, the upstream and
the clients are interleaved, the server with pools of at most `n` members makes at most `n + 22` steps
for each request that has arrived, so that it cannot go on for ever without new ones; and when nobody
can go on, every request was answered or dropped, all permits are back, and no flight is left. -/
theorem server_settles {n : ℕ} (hn : ∀ k, (members k).length ≤ n)
    (hrun : Run (step setup) (initial members now) ts d) :
    ts.countP proceeds ≤ (n + 22) * d.gateway.started ∧
      (¬ CanProceed setup d →
        (∀ i stage, d.gateway.requests i = some stage → stage.inflight = false) ∧
          d.gateway.inflight = 0 ∧ d.gateway.permits = admissionLimit ∧
          ∀ k j key, (d.caches k j).flights.lookup key = none) := by
  constructor
  · have hasked := length_asked_le hrun
    have hentering : (ts.filterMap entering).length ≤ d.gateway.started :=
      ((entering_le_entered).trans (entered_le_asked hrun)).trans hasked
    calc ts.countP proceeds
        ≤ ts.countP serving + (ts.filterMap selecting).length + (ts.filterMap fetching).length :=
          countP_proceeds_le ts
      _ ≤ 5 * d.gateway.started + (n + 7) * d.gateway.started + 10 * d.gateway.started := by
          refine Nat.add_le_add (Nat.add_le_add (countP_serving_le hrun) ?_) ?_
          · exact (length_selecting_le hn hrun).trans (Nat.mul_le_mul_left _ hasked)
          · exact (length_fetching_le hrun).trans (Nat.mul_le_mul_left _ hentering)
      _ = (n + 22) * d.gateway.started := by ring
  · intro hstuck
    have hclosed (i : ι) (stage : RequestStage) (hi : d.gateway.requests i = some stage) :
        stage.inflight = false := by
      cases hopen : stage.inflight with
      | false => rfl
      | true => exact absurd (canProceed_of_request hrun hi hopen) hstuck
    obtain ⟨hinflight, hpermits⟩ :=
      quiet_of_closed (Gateway.balanced_of_run (runs_gateway hrun)) hclosed
    refine ⟨hclosed, hinflight, hpermits, fun k j => ?_⟩
    exact (QueryCache.settled_of_run (runs_cache hrun k j)
      fun hcache => hstuck (canProceed_of_cache hcache)).2.1

end Bounds

omit [DecidableEq Value] in
/-- The two requests of the sample, with one member in each pool. -/
theorem server_settles_shared :
    sharedRun.countP proceeds ≤ (1 + 22) * sharedDeployment.gateway.started := by
  let _ : DecidableEq Value := Classical.decEq Value
  obtain ⟨hle, -⟩ := server_settles (n := 1) (fun _ => le_rfl) run_shared
  exact hle

end Deployment

end MoenotesApi
