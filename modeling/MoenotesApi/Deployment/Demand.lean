import MoenotesApi.Deployment.Provenance
import MoenotesApi.Library.Census

/-!
# What the server asks of the upstream

Retries, coalescing and failover lie between a request and the upstream.  None of them multiplies a
request.

* `executing`: the calls of `execute`; `Started`: the request whose lookup has started the flight of a
  call; `entering`, `entered`: the queries that enter a cache; `asked`: the requests that make a query;
* `nodup_executing`: a flight calls at most once; `started_of_executing`, `started_unique`: a request has
  started it, and has started no other; `nodup_entered`: no query enters two caches, or one twice;
* `no_replay`: every call has a request of its own.
-/

namespace MoenotesApi.Deployment

open JsonTree (Value)
open Runs

variable {ι σ M ρ : Type} [DecidableEq ι]
variable {d d' : Deployment ι σ} {i : ι} {k j : ℕ}
variable {ts us : List (Transition (Deployment ι σ) (Event ι σ))}
variable {t : Transition (Deployment ι σ) (Event ι σ)}

/-- The flight that calls `execute` in a transition, with its pool and its member. -/
def executing (t : Transition (Deployment ι σ) (Event ι σ)) : Option (ℕ × ℕ × ℕ) :=
  match t.event with
  | .cache k j (.execute f) => some (k, j, f)
  | _ => none

/-- The lookup of the request `i` has started the flight. -/
def Started (ts : List (Transition (Deployment ι σ) (Event ι σ))) (i : ι) : ℕ × ℕ × ℕ → Prop
  | (k, j, f) => ∃ t ∈ ts, t.event = .cache k j (.lookup i) ∧
    ∃ q key, (t.after.caches k j).callers i = some ⟨q, .joined key f .miss⟩

/-- The member whose cache a query enters in a transition, with its pool. -/
def entering (t : Transition (Deployment ι σ) (Event ι σ)) : Option (ℕ × ℕ) :=
  match t.event with
  | .enter k i => (t.before.chosen k i).map fun choice => (k, choice.1)
  | _ => none

/-- The request whose query enters a cache in a transition. -/
def entered (t : Transition (Deployment ι σ) (Event ι σ)) : Option ι :=
  match t.event with
  | .enter _ i => some i
  | _ => none

/-- The request that makes a query in a transition. -/
def asking (t : Transition (Deployment ι σ) (Event ι σ)) : Option ι :=
  match t.event with
  | .front (.body i _) =>
    match t.after.gateway.requests i with
    | some (.querying _ _) => some i
    | _ => none
  | _ => none

/-- The requests that have made a query. -/
def asked (ts : List (Transition (Deployment ι σ) (Event ι σ))) : List ι := ts.filterMap asking

/-! ### Calls of the upstream -/

omit [DecidableEq ι] in
theorem executing_eq_some {f : ℕ} (h : executing t = some (k, j, f)) :
    t.event = .cache k j (.execute f) := by
  unfold executing at h
  split at h
  · next f he =>
    cases h
    exact he
  · cases h

variable [DecidableEq ρ] [DecidableEq Value] {setup : DeploymentSetup M ρ}
variable {members : ℕ → List (SessionPool.SessionMember σ)} {now : ℕ}

omit [DecidableEq ι] [DecidableEq Value] in
/-- What starts a flight of a cache is a lookup of that cache. -/
theorem started_iff {f : ℕ} : Started ts i (k, j, f) ↔
    ∃ t ∈ (behind k j).project ts, QueryCache.Launches i f t := by
  constructor
  · rintro ⟨t, ht, he, q, key, hi⟩
    refine ⟨⟨t.before.caches k j, .lookup i, t.after.caches k j⟩, ?_, rfl, q, key, hi⟩
    exact (Part.mem_project _).2 ⟨t, ht, by rw [he]; exact if_pos ⟨rfl, rfl⟩, rfl, rfl⟩
  · rintro ⟨u, hu, he, q, key, hi⟩
    obtain ⟨t, ht, hown, -, hafter⟩ := (Part.mem_project _).1 hu
    rw [he] at hown
    exact ⟨t, ht, cache_of_own hown rfl, q, key, by rw [← hi, ← hafter]; rfl⟩

/-- A flight calls `execute` at most once. -/
theorem nodup_executing (hrun : Run (step setup) (initial members now) ts d) :
    (ts.filterMap executing).Nodup := by
  refine List.nodup_iff_count_le_one.2 ?_
  rintro ⟨k, j, f⟩
  have hle : (ts.filterMap executing).count (k, j, f) ≤
      ((behind k j).project ts).countP (QueryCache.executesOf f) := by
    rw [List.count_filterMap, Part.countP_project]
    refine List.countP_mono_left fun t _ h => ?_
    have he := executing_eq_some (by simpa using h)
    simp [Part.transition, behind, he, cacheEvent, QueryCache.executesOf]
  exact hle.trans (QueryCache.executesOf_le_one (runs_cache hrun k j)
    (QueryCache.flightInv_initial _ _ _) f).1

/-- A request has started the flight of a call. -/
theorem started_of_executing (hrun : Run (step setup) (initial members now) ts d)
    {flight : ℕ × ℕ × ℕ} (h : flight ∈ ts.filterMap executing) : ∃ i, Started ts i flight := by
  obtain ⟨k, j, f⟩ := flight
  obtain ⟨t, ht, hexecuting⟩ := List.mem_filterMap.1 h
  obtain ⟨before, after, rfl⟩ := List.append_of_mem ht
  obtain ⟨hbefore, hstep, -⟩ := hrun.around
  rw [executing_eq_some hexecuting] at hstep
  have htask : (t.before.caches k j).tasks f ≠ none := by
    generalize t.after = d' at hstep
    cases Step.of_step hstep with
    | cache _ hc =>
      cases QueryCache.Step.of_step hc with
      | execute hf => simp [hf]
  obtain ⟨i, u, hu, hl⟩ := QueryCache.launched_of_run (runs_cache hbefore k j) htask
  obtain ⟨t', ht', h⟩ := started_iff.2 ⟨u, hu, hl⟩
  exact ⟨i, t', List.mem_append_left _ ht', h⟩

/-- The queries of one cache are those that enter it. -/
theorem count_entering (hrun : Run (step setup) d ts d') (k j : ℕ) :
    ((behind k j).project ts).countP QueryCache.arrives ≤ (ts.filterMap entering).count (k, j) := by
  rw [List.count_filterMap, Part.countP_project]
  refine List.countP_mono_left fun t ht h => ?_
  obtain ⟨t', ht', harrives⟩ := (Option.any_eq_true _ _).1 h
  obtain ⟨e, hown, rfl⟩ := Option.map_eq_some_iff.1 ht'
  cases e with
  | arrive i q =>
    obtain ⟨he, hchosen⟩ := enter_of_own (Step.of_step (hrun.step_of_mem ht)) hown
    simp [entering, he, hchosen]
  | _ => cases harrives

omit [DecidableEq ι] [DecidableEq Value] in
theorem entering_le_entered : (ts.filterMap entering).length ≤ (ts.filterMap entered).length := by
  rw [List.length_filterMap_eq_countP, List.length_filterMap_eq_countP]
  refine List.countP_mono_left fun t _ h => ?_
  unfold entering at h
  split at h
  · next k i he => simp [entered, he]
  · cases h

/-! ### Queries that enter a cache -/

omit [DecidableEq ι] [DecidableEq Value] in
theorem entered_eq_some (h : entered t = some i) : ∃ k, t.event = .enter k i := by
  unfold entered at h
  split at h
  · next k i he =>
    cases h
    exact ⟨k, he⟩
  · cases h

theorem chosen_of_enter (h : Step setup d (.enter k i) d') : ∃ j q, d.chosen k i = some (j, q) := by
  cases h with
  | enter hchosen => exact ⟨_, _, hchosen⟩

/-- A request makes at most one query. -/
theorem eq_of_mem_called (hrun : Run (step setup) (initial members now) ts d) {call call' : HttpCall}
    (hcall : call ∈ called ts i) (hcall' : call' ∈ called ts i) : call = call' := by
  rcases called_cases hrun i with hnone | ⟨_, c, -, hc, -⟩
  · rw [hnone] at hcall
    cases hcall
  · rw [hc, List.mem_singleton] at hcall hcall'
    rw [hcall, hcall']

/-- A query that is about to enter a cache has entered none yet. -/
theorem not_entered (hrun : Run (step setup) (initial members now) ts d) {q : Query}
    (hchosen : d.chosen k i = some (j, q)) : i ∉ ts.filterMap entered := by
  intro hmem
  obtain ⟨t, ht, hentered⟩ := List.mem_filterMap.1 hmem
  obtain ⟨k', he⟩ := entered_eq_some hentered
  have hstep := Step.of_step (hrun.step_of_mem ht)
  rw [he] at hstep
  obtain ⟨j', q', hchosen'⟩ := chosen_of_enter hstep
  obtain ⟨call, hcall, hpool, -⟩ := called_of_chosen hrun hchosen
  obtain ⟨call', hcall', hpool', -⟩ := called_of_enter hrun ht hchosen'
  obtain rfl : k' = k := by rw [← hpool, ← hpool', eq_of_mem_called hrun hcall hcall']
  -- the pool has handed on what has entered, but not what it still has to hand on
  have hhanded : j' ∈ handed setup k' ts i := handed_of_enter ht he hchosen'
  have htrace := SessionPool.trace_of_run (pool_run (runs_gateway hrun) k') (fun _ => rfl) i
  rw [chosen_eq_some.1 hchosen] at htrace
  cases htrace with
  | chosen hnone =>
    unfold handed at hhanded
    rw [hnone] at hhanded
    cases hhanded

theorem nodup_entered (hrun : Run (step setup) (initial members now) ts d) :
    (ts.filterMap entered).Nodup := by
  induction hrun with
  | nil => exact List.nodup_nil
  | @snoc ts m e m' hrun hstep ih =>
    rw [List.filterMap_append]
    cases hentered : entered (⟨m, e, m'⟩ : Transition (Deployment ι σ) (Event ι σ)) with
    | none => simpa [hentered] using ih
    | some i =>
      obtain ⟨k, rfl⟩ := entered_eq_some hentered
      obtain ⟨j, q, hchosen⟩ := chosen_of_enter (Step.of_step hstep)
      have hnot := not_entered hrun hchosen
      simp only [List.filterMap_cons, hentered, List.filterMap_nil]
      exact ih.append (List.nodup_singleton i) (by simpa using hnot)

/-! ### Requests with a query -/

omit [DecidableEq Value] [DecidableEq ρ] in
/-- The request makes a query where the server notes one. -/
theorem asking_eq (t : Transition (Deployment ι σ) (Event ι σ)) (i : ι) :
    ((server.transition t).bind (Gateway.calls i)).isSome = (asking t == some i) := by
  obtain ⟨before, event, after⟩ := t
  cases event with
  | front e =>
    have hfront : server.transition ⟨before, .front e, after⟩ =
        some ⟨before.gateway, e, after.gateway⟩ := rfl
    rw [hfront, Option.bind_some]
    cases e with
    | body j body =>
      by_cases hji : j = i
      · subst hji
        rcases hstage : after.gateway.requests j with _ | stage
        · simp [Gateway.calls, asking, hstage]
        · cases stage <;> simp [Gateway.calls, asking, hstage]
      · have hother : asking ⟨before, .front (.body j body), after⟩ ≠ some i := by
          unfold asking
          dsimp only
          split <;> simp [hji]
        rw [Gateway.calls_eq_none (by simp [hji])]
        simpa using hother
    | _ => rfl
  | answer k j =>
    cases hresult : before.result k j <;>
      simp [Part.transition, server, gatewayEvent, hresult, asking, Gateway.calls]
  | _ => rfl

omit [DecidableEq Value] [DecidableEq ρ] in
theorem count_asked (ts : List (Transition (Deployment ι σ) (Event ι σ))) (i : ι) :
    (asked ts).count i = (called ts i).length := by
  unfold asked called Gateway.called Part.project
  rw [List.count_filterMap, List.filterMap_filterMap, List.length_filterMap_eq_countP]
  congr 1
  funext t
  exact (asking_eq t i).symm

theorem nodup_asked (hrun : Run (step setup) (initial members now) ts d) : (asked ts).Nodup := by
  refine List.nodup_iff_count_le_one.2 fun i => ?_
  rw [count_asked]
  rcases called_cases hrun i with hnone | ⟨_, call, -, hcall, -⟩
  · rw [hnone]
    exact Nat.zero_le _
  · rw [hcall]
    exact le_rfl

omit [DecidableEq Value] [DecidableEq ρ] in
theorem mem_asked : i ∈ asked ts ↔ called ts i ≠ [] := by
  rw [← List.count_pos_iff, count_asked, List.length_pos_iff]

/-- The cache of the flight knows the request that has started it. -/
theorem caller_of_started (hrun : Run (step setup) (initial members now) ts d) {f : ℕ}
    (h : Started ts i (k, j, f)) : (d.caches k j).callers i ≠ none := by
  obtain ⟨t, ht, hl⟩ := started_iff.1 h
  exact (QueryCache.late_of_launches (runs_cache hrun k j) ht hl).1

theorem asked_of_started (hrun : Run (step setup) (initial members now) ts d) {flight : ℕ × ℕ × ℕ}
    (h : Started ts i flight) : i ∈ asked ts := by
  obtain ⟨k, j, f⟩ := flight
  obtain ⟨caller, hi⟩ := Option.ne_none_iff_exists'.1 (caller_of_started hrun h)
  obtain ⟨-, call, hcall, -⟩ := cached_of_run hrun hi
  exact mem_asked.2 (List.ne_nil_of_mem hcall)

/-- No request starts two flights, in one cache or in two. -/
theorem started_unique (hrun : Run (step setup) (initial members now) ts d)
    {flight flight' : ℕ × ℕ × ℕ} (h : Started ts i flight) (h' : Started ts i flight') :
    flight = flight' := by
  obtain ⟨k, j, f⟩ := flight
  obtain ⟨k', j', f'⟩ := flight'
  obtain ⟨caller, hi⟩ := Option.ne_none_iff_exists'.1 (caller_of_started hrun h)
  obtain ⟨hj, call, hcall, rfl, -⟩ := cached_of_run hrun hi
  rcases called_cases hrun i with hnone | ⟨_, call', -, hone, -⟩
  · rw [hnone] at hcall
    cases hcall
  · rw [hone, List.mem_singleton] at hcall
    subst hcall
    obtain ⟨rfl, rfl⟩ := cache_unique hrun hone hj (caller_of_started hrun h')
    obtain ⟨t, ht, hl⟩ := started_iff.1 h
    obtain ⟨u, hu, hl'⟩ := started_iff.1 h'
    rw [QueryCache.launches_unique (runs_cache hrun _ _) ht hu hl hl']

/-- What enters a cache was made by a request. -/
theorem entered_le_asked (hrun : Run (step setup) (initial members now) ts d) :
    (ts.filterMap entered).length ≤ (asked ts).length := by
  have hsub : ts.filterMap entered ⊆ asked ts := by
    intro i hi
    obtain ⟨t, ht, hentered⟩ := List.mem_filterMap.1 hi
    obtain ⟨k, he⟩ := entered_eq_some hentered
    have hstep := Step.of_step (hrun.step_of_mem ht)
    rw [he] at hstep
    obtain ⟨j, q, hchosen⟩ := chosen_of_enter hstep
    obtain ⟨call, hcall, -⟩ := called_of_enter hrun ht hchosen
    exact mem_asked.2 (List.ne_nil_of_mem hcall)
  exact ((nodup_entered hrun).subperm hsub).length_le

/-- **No request is replayed.**  In every run of the server with its pools and caches, each call of the
upstream by a member belongs to one request of its own, which has made a query and whose lookup has
started the flight of that call; so there are at most as many calls as requests with a query, and each of
these requests has the key and asks for a permitted method with a valid query. -/
theorem no_replay (hrun : Run (step setup) (initial members now) ts d) :
    (∃ owners : List ι, owners.Nodup ∧ owners ⊆ asked ts ∧
      List.Forall₂ (Started ts) owners (ts.filterMap executing)) ∧
    (ts.filterMap executing).length ≤ (asked ts).length ∧ (asked ts).Nodup ∧
      ∀ i ∈ asked ts, ∃ stage call, d.gateway.requests i = some stage ∧ called ts i = [call] ∧
        Gateway.Called setup.lib setup.state stage.request call := by
  obtain ⟨owners, hnodup, howners⟩ := exists_makers (nodup_executing hrun)
    (fun _ h => started_of_executing hrun h) (fun _ _ _ h h' => started_unique hrun h h')
  have hasked : owners ⊆ asked ts := by
    intro i hi
    obtain ⟨flight, -, h⟩ := exists_of_forall₂ howners hi
    exact asked_of_started hrun h
  refine ⟨⟨owners, hnodup, hasked, howners⟩, ?_, nodup_asked hrun, fun i hi => ?_⟩
  · rw [← howners.length_eq]
    exact (hnodup.subperm hasked).length_le
  · rcases called_cases hrun i with hnone | h
    · exact absurd hnone (mem_asked.1 hi)
    · exact h

omit [DecidableEq Value] in
/-- Two requests share one call. -/
theorem no_replay_shared :
    (sharedRun.filterMap executing).length ≤ (asked sharedRun).length ∧ (asked sharedRun).Nodup := by
  let _ : DecidableEq Value := Classical.decEq Value
  obtain ⟨-, hle, hnodup, -⟩ := no_replay run_shared
  exact ⟨hle, hnodup⟩

end MoenotesApi.Deployment
