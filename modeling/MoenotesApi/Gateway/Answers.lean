import MoenotesApi.Gateway.Admission

/-!
# Answers of the HTTP server

Which requests reach a pool, which pool they reach, and what they answer with.

* `calls`, `called`: the query that a request makes in a run; `Trace`: what has happened to a request,
  by the stage that it has come to;
* `Linked`: the pools know a request only by its own query;
* `pools_isolated`, `answers_sound`: the pools in a run of the server, and the responses with data.
-/

namespace MoenotesApi.SessionPool

variable {ι σ α : Type} [DecidableEq ι] {p p' : SessionPool ι σ α} {e : Event ι σ α} {i : ι}

/-- The call of `query` has neither returned nor been dropped. -/
def live {α : Type} : PoolStage α → Bool
  | .returned _ | .dropped => false
  | _ => true

/-- A query changes by events of its own only: it is made, or goes on while it is live. -/
theorem Step.queries_cases (h : Step p e p') (i : ι) :
    p'.queries i = p.queries i ∨ (∃ q, e = .query i q ∧ p.queries i = none) ∨
      ∃ stage, p.queries i = some stage ∧ live stage = true := by
  have update {j : ι} {stage : PoolStage α} {rest : Prop}
      (hj : j = i → rest) : Function.update p.queries j (some stage) i = p.queries i ∨ rest := by
    by_cases hji : j = i
    · exact .inr (hj hji)
    · exact .inl (Function.update_of_ne (Ne.symm hji) _ _)
  cases h with
  | query hi =>
    refine update ?_
    rintro rfl
    exact .inl ⟨_, rfl, hi⟩
  | lock hi | enter hi | answer hi | checkFailed hi | check hi | stamp hi | write hi | drop hi =>
    refine update ?_
    rintro rfl
    exact .inr ⟨_, hi, rfl⟩
  | examineRefused hi | examinePicked hi | examineEnd hi =>
    simp only [setQuery_queries, preflight_queries]
    refine update ?_
    rintro rfl
    exact .inr ⟨_, hi, rfl⟩
  | inspect | session | client | stop | advance => exact .inl rfl

end MoenotesApi.SessionPool

namespace MoenotesApi.Gateway

open FormText (Bytes)
open Runs
open SessionPool (live)

variable {ι σ M ρ : Type} [DecidableEq ι] [DecidableEq ρ] {lib : HttpLibraries M ρ}
variable {state : ApiState ρ} {g g' : Gateway ι σ} {e : Event ι σ} {i : ι}
variable {ts us : List (Transition (Gateway ι σ) (Event ι σ))}

/-! ### The trace of a request -/

/-- The query that the request `i` makes in a transition. -/
def calls (i : ι) (t : Transition (Gateway ι σ) (Event ι σ)) : Option HttpCall :=
  match t.event, t.after.requests i with
  | .body j _, some (.querying _ call) => if j = i then some call else none
  | _, _ => none

/-- The queries that the request `i` has made. -/
def called (ts : List (Transition (Gateway ι σ) (Event ι σ))) (i : ι) : List HttpCall :=
  ts.filterMap (calls i)

theorem calls_eq_none (he : ∀ body, e ≠ .body i body) : calls i ⟨g, e, g'⟩ = none := by
  unfold calls
  split
  · next j _ _ _ he' _ =>
    refine if_neg ?_
    rintro rfl
    exact he _ he'
  · rfl

theorem called_snoc (t : Transition (Gateway ι σ) (Event ι σ)) :
    called (ts ++ [t]) i = called ts i ++ (calls i t).toList := by
  unfold called
  rw [List.filterMap_append]
  cases h : calls i t <;> simp [h]

/-- At some moment the pool `k` had this result for the query of the request. -/
def Returned (ts : List (Transition (Gateway ι σ) (Event ι σ))) (i : ι) (k : ℕ)
    (result : Except ClientError PoolAnswer) : Prop :=
  ∃ a t b, ts = a ++ t :: b ∧ (t.before.pools k).queries i = some (.returned result)

omit [DecidableEq ι] in
theorem Returned.append {k : ℕ} {result : Except ClientError PoolAnswer} (h : Returned ts i k result) :
    Returned (ts ++ us) i k result := by
  obtain ⟨a, t, b, rfl, h⟩ := h
  exact ⟨a, t, b ++ us, by simp, h⟩

/-- Where a response comes from. -/
inductive Source (lib : HttpLibraries M ρ) (state : ApiState ρ)
    (ts : List (Transition (Gateway ι σ) (Event ι σ))) (i : ι) (request : HttpRequest) :
    HttpResponse → Prop
  | refused {response} (hc : called ts i = []) (hdata : ¬ HasData response) :
      Source lib state ts i request response
  | answered {call result} (hc : called ts i = [call]) (h : Called lib state request call)
      (hr : Returned ts i call.pool result) :
      Source lib state ts i request (MoenotesApi.respond lib state call result)

/-- What has happened to the request `i`, by the stage that it has come to. -/
inductive Trace (lib : HttpLibraries M ρ) (state : ApiState ρ)
    (ts : List (Transition (Gateway ι σ) (Event ι σ))) (i : ι) : Option RequestStage → Prop
  | unseen (hc : called ts i = []) : Trace lib state ts i none
  | begun {request} (hc : called ts i = []) : Trace lib state ts i (some (.begun request))
  | admitted {request handler params} (hc : called ts i = [])
      (h : Admitted lib state request handler params) :
      Trace lib state ts i (some (.admitted request handler params))
  | reading {request handler params} (hc : called ts i = [])
      (h : Admitted lib state request handler params) (hverb : request.verb = .get) :
      Trace lib state ts i (some (.reading request handler params))
  | querying {request call} (hc : called ts i = [call]) (h : Called lib state request call) :
      Trace lib state ts i (some (.querying request call))
  | answered {request response} (h : Source lib state ts i request response) :
      Trace lib state ts i (some (.answered request response))
  | closed {request response id} (h : Source lib state ts i request response) :
      Trace lib state ts i (some (.closed request (response.tagged id)))
  | left {request} (hc : called ts i = []) : Trace lib state ts i (some (.dropped request))
  | dropped {request call} (hc : called ts i = [call]) (h : Called lib state request call) :
      Trace lib state ts i (some (.dropped request))

theorem Source.append {request : HttpRequest} {response : HttpResponse}
    {t : Transition (Gateway ι σ) (Event ι σ)} (h : Source lib state ts i request response)
    (ht : calls i t = none) : Source lib state (ts ++ [t]) i request response := by
  have hcalled : called (ts ++ [t]) i = called ts i := by
    rw [called_snoc, ht]
    exact List.append_nil _
  cases h with
  | refused hc hdata => exact .refused (hcalled.trans hc) hdata
  | answered hc h hr => exact .answered (hcalled.trans hc) h hr.append

/-- A transition without a query of the request that leaves its stage alone. -/
theorem Trace.append {stage : Option RequestStage} {t : Transition (Gateway ι σ) (Event ι σ)}
    (h : Trace lib state ts i stage) (ht : calls i t = none) : Trace lib state (ts ++ [t]) i stage := by
  have hcalled : called (ts ++ [t]) i = called ts i := by
    rw [called_snoc, ht]
    exact List.append_nil _
  cases h with
  | unseen hc => exact .unseen (hcalled.trans hc)
  | begun hc => exact .begun (hcalled.trans hc)
  | admitted hc h => exact .admitted (hcalled.trans hc) h
  | reading hc h hverb => exact .reading (hcalled.trans hc) h hverb
  | querying hc h => exact .querying (hcalled.trans hc) h
  | answered h => exact .answered (h.append ht)
  | closed h => exact .closed (h.append ht)
  | left hc => exact .left (hcalled.trans hc)
  | dropped hc h => exact .dropped (hcalled.trans hc) h

/-- The request to which an event happens. -/
def Event.owner : Event ι σ → Option ι
  | .arrive i _ | .authenticate i | .handle i _ | .body i _ | .respond i | .finish i _
  | .disconnect i => some i
  | .pool _ _ | .advance _ => none

theorem Step.requests_of_ne (h : Step lib state g e g') (hne : e.owner ≠ some i) :
    g'.requests i = g.requests i := by
  cases h with
  | pool | advance => rfl
  | _ =>
    refine Function.update_of_ne ?_ _ _
    rintro rfl
    exact hne rfl

/-- What a step does to the trace of its own request. -/
theorem Trace.step_own (h : Trace lib state ts i (g.requests i)) (hstep : Step lib state g e g')
    (howner : e.owner = some i) : Trace lib state (ts ++ [⟨g, e, g'⟩]) i (g'.requests i) := by
  have quiet {stage : Option RequestStage} (hquiet : ∀ body, e ≠ .body i body)
      (htrace : Trace lib state ts i stage) : Trace lib state (ts ++ [⟨g, e, g'⟩]) i stage :=
    htrace.append (calls_eq_none hquiet)
  cases hstep with
  | pool | advance => cases howner
  | arrive hi =>
    cases howner
    rw [hi] at h
    cases h with
    | unseen hc =>
      refine quiet (by simp) ?_
      simp only [setRequest_requests, Function.update_self]
      exact .begun hc
  | refuse hi hrefused =>
    cases howner
    rw [hi] at h
    cases h with
    | begun hc =>
      refine quiet (by simp) ?_
      simp only [setRequest_requests, Function.update_self]
      exact .answered (.refused hc hrefused.not_hasData)
  | letIn hi hadmitted =>
    cases howner
    rw [hi] at h
    cases h with
    | begun hc =>
      refine quiet (by simp) ?_
      simp only [setRequest_requests, Function.update_self]
      exact .admitted hc hadmitted
  | read hi hverb =>
    cases howner
    rw [hi] at h
    cases h with
    | admitted hc hadmitted =>
      refine quiet (by simp) ?_
      simp only [setRequest_requests, Function.update_self]
      exact .reading hc hadmitted hverb
  | reply hi hdata =>
    cases howner
    rw [hi] at h
    cases h with
    | admitted hc =>
      refine quiet (by simp) ?_
      simp only [release_requests, setRequest_requests, Function.update_self]
      exact .answered (.refused hc hdata)
  | @reject _ request handler params body response hi hcall =>
    cases howner
    rw [hi] at h
    cases h with
    | reading hc =>
      have hquiet : calls i ⟨g, .body i body, (g.setRequest i (.answered request response)).release⟩ =
          none := by simp [calls]
      simp only [release_requests, setRequest_requests, Function.update_self]
      exact (Trace.answered (.refused hc (errors_call _ _ _ _ _ _ _ hcall))).append hquiet
  | @query _ request handler params body call p hi hcall hp =>
    cases howner
    rw [hi] at h
    cases h with
    | reading hc hadmitted hverb =>
      obtain ⟨rfl, -⟩ := call_eq_ok hcall
      simp only [setRequest_requests, Function.update_self]
      refine .querying ?_ ⟨handler, params, hadmitted, hverb, hcall⟩
      rw [called_snoc, hc]
      simp [calls]
  | @respond _ request call result hi hr =>
    cases howner
    rw [hi] at h
    cases h with
    | querying hc hcalled =>
      have hsource : Source lib state (ts ++ [⟨g, .respond i,
          (g.setRequest i (.answered request (MoenotesApi.respond lib state call result))).release⟩]) i
          request (MoenotesApi.respond lib state call result) := by
        refine .answered ?_ hcalled ⟨ts, _, [], rfl, hr⟩
        rw [called_snoc, hc]
        simp [calls]
      simp only [release_requests, setRequest_requests, Function.update_self]
      exact .answered hsource
  | finish hi =>
    cases howner
    rw [hi] at h
    cases h with
    | answered hsource =>
      refine quiet (by simp) ?_
      simp only [setRequest_requests, Function.update_self]
      exact .closed hsource
  | leave hi =>
    cases howner
    rw [hi] at h
    cases h with
    | reading hc =>
      refine quiet (by simp) ?_
      simp only [release_requests, setRequest_requests, Function.update_self]
      exact .left hc
  | quit hi =>
    cases howner
    rw [hi] at h
    cases h with
    | querying hc hcalled =>
      refine quiet (by simp) ?_
      simp only [release_requests, setRequest_requests, Function.update_self]
      exact .dropped hc hcalled

theorem Trace.step (h : Trace lib state ts i (g.requests i)) (hstep : Step lib state g e g') :
    Trace lib state (ts ++ [⟨g, e, g'⟩]) i (g'.requests i) := by
  by_cases howner : e.owner = some i
  · exact h.step_own hstep howner
  · rw [hstep.requests_of_ne howner]
    refine h.append (calls_eq_none ?_)
    rintro body rfl
    exact howner rfl

theorem trace_of_run {pools : ℕ → SessionPool ι σ PoolAnswer}
    (hrun : Run (Gateway.step lib state) (initial pools) ts g) (i : ι) :
    Trace lib state ts i (g.requests i) := by
  induction hrun with
  | nil => exact .unseen rfl
  | snoc _ hstep ih => exact ih.step (Step.of_step hstep)

/-! ### What the pools know -/

/-- A pool gets its queries from the requests. -/
theorem Step.calls_of_own (h : Step lib state g e g') {k : ℕ} {q : Query}
    (hown : (part lib state k).own g e = some (.query i q)) :
    ∃ body request call, e = .body i body ∧ g'.requests i = some (.querying request call) ∧
      call.pool = k ∧ q = call.encoded lib ∧ calls i ⟨g, e, g'⟩ = some call := by
  cases h with
  | arrive | refuse | letIn | read | reply | respond | finish => cases hown
  | reject hi hcall => simp [part, poolEvent, hi, hcall] at hown
  | leave hi => simp [part, poolEvent, hi] at hown
  | @query j request handler params body call p hi hcall hp =>
    simp only [part, poolEvent, hi, hcall] at hown
    split_ifs at hown with hk
    cases hown
    exact ⟨body, request, call, rfl, by simp, hk, rfl, by simp [calls]⟩
  | quit hi =>
    simp only [part, poolEvent, hi] at hown
    split_ifs at hown
    cases hown
  | pool he =>
    simp only [part, poolEvent] at hown
    split_ifs at hown
    cases hown
    cases he
  | advance => cases hown

/-- A pool takes note of a request only when the request makes its query. -/
theorem Step.pool_queries (h : Step lib state g e g') (k : ℕ) (i : ι) :
    (g'.pools k).queries i = (g.pools k).queries i ∨
      (∃ stage, (g.pools k).queries i = some stage ∧ live stage = true) ∨
      ∃ request call, g'.requests i = some (.querying request call) ∧ call.pool = k ∧
        calls i ⟨g, e, g'⟩ = some call := by
  have hmoves := h.moves k
  cases hown : (part lib state k).own g e with
  | none =>
    have hstays : g'.pools k = g.pools k := hmoves.stays hown
    exact .inl (by rw [hstays])
  | some d =>
    rcases (SessionPool.Step.of_step (hmoves.moves d hown)).queries_cases i with
      hsame | ⟨q, rfl, -⟩ | hlive
    · exact .inl hsame
    · obtain ⟨-, request, call, -, hrequest, hk, -, hcalls⟩ := h.calls_of_own hown
      exact .inr (.inr ⟨request, call, hrequest, hk, hcalls⟩)
    · exact .inr (.inl hlive)

/-- A request waits for its pool until the pool has returned or the request is dropped. -/
theorem Step.querying_cases (h : Step lib state g e g') {request : HttpRequest} {call : HttpCall}
    (hi : g.requests i = some (.querying request call)) :
    g'.requests i = some (.querying request call) ∨
      (∃ result, (g.pools call.pool).queries i = some (.returned result)) ∨
      (g.pools call.pool).step (.drop i) = some (g'.pools call.pool) := by
  by_cases howner : e.owner = some i
  · cases h with
    | pool | advance => cases howner
    | respond hi' hr =>
      cases howner
      rw [hi'] at hi
      cases hi
      exact .inr (.inl ⟨_, hr⟩)
    | quit hi' hp =>
      cases howner
      rw [hi'] at hi
      cases hi
      exact .inr (.inr (by simpa using hp))
    | arrive hi' | refuse hi' | letIn hi' | read hi' | reply hi' | reject hi' | query hi' | finish hi'
    | leave hi' =>
      cases howner
      rw [hi'] at hi
      cases hi
  · exact .inl ((h.requests_of_ne howner).trans hi)

/-- The pools know the request by its own query, and work on it only while it waits for them. -/
structure Linked (ts : List (Transition (Gateway ι σ) (Event ι σ))) (g : Gateway ι σ) (i : ι) :
    Prop where
  known : ∀ k, (g.pools k).queries i ≠ none → ∃ call ∈ called ts i, call.pool = k
  live : ∀ k stage, (g.pools k).queries i = some stage → live stage = true →
    ∃ request call, g.requests i = some (.querying request call) ∧ call.pool = k

theorem Linked.step (h : Linked ts g i) (hstep : Step lib state g e g') :
    Linked (ts ++ [⟨g, e, g'⟩]) g' i := by
  have hold {k : ℕ} (hk : (g.pools k).queries i ≠ none) :
      ∃ call ∈ called (ts ++ [⟨g, e, g'⟩]) i, call.pool = k := by
    obtain ⟨call, hcall, hpool⟩ := h.known k hk
    exact ⟨call, by rw [called_snoc]; exact List.mem_append_left _ hcall, hpool⟩
  constructor
  · intro k hk
    rcases hstep.pool_queries k i with hsame | ⟨stage, hstage, -⟩ | ⟨request, call, -, hpool, hcalls⟩
    · exact hold (hsame ▸ hk)
    · exact hold (by rw [hstage]; exact Option.some_ne_none _)
    · exact ⟨call, by rw [called_snoc, hcalls]; simp, hpool⟩
  · intro k stage hk hlive
    have hbefore : (∃ stage, (g.pools k).queries i = some stage ∧ SessionPool.live stage = true) →
        ∃ request call, g'.requests i = some (.querying request call) ∧ call.pool = k := by
      rintro ⟨stage₀, hstage₀, hlive₀⟩
      obtain ⟨request, call, hi, rfl⟩ := h.live k stage₀ hstage₀ hlive₀
      rcases hstep.querying_cases hi with hi' | ⟨result, hresult⟩ | hdrop
      · exact ⟨request, call, hi', rfl⟩
      · rw [hresult] at hstage₀
        cases hstage₀
        cases hlive₀
      · have hdropped : (g'.pools call.pool).queries i = some .dropped := by
          generalize hp : g'.pools call.pool = p at hdrop
          cases SessionPool.Step.of_step hdrop with
          | drop => simp
        rw [hdropped] at hk
        cases hk
        cases hlive
    rcases hstep.pool_queries k i with hsame | hstage | ⟨request, call, hi, hpool, -⟩
    · exact hbefore ⟨stage, hsame ▸ hk, hlive⟩
    · exact hbefore hstage
    · exact ⟨request, call, hi, hpool⟩

theorem linked_of_run {pools : ℕ → SessionPool ι σ PoolAnswer}
    (hpools : ∀ k i, (pools k).queries i = none)
    (hrun : Run (Gateway.step lib state) (initial pools) ts g) (i : ι) : Linked ts g i := by
  induction hrun with
  | nil =>
    constructor
    · intro k hk
      exact absurd (hpools k i) hk
    · intro k stage hk
      rw [show (initial pools).pools k = pools k from rfl, hpools] at hk
      cases hk
  | snoc _ hstep ih => exact ih.step (Step.of_step hstep)

/-- What the one query of a request was. -/
theorem Trace.called_cases {stage : Option RequestStage} (h : Trace lib state ts i stage) :
    called ts i = [] ∨ ∃ stage' call, stage = some stage' ∧ called ts i = [call] ∧
      Called lib state stage'.request call := by
  cases h with
  | unseen hc | begun hc | admitted hc | reading hc | left hc => exact .inl hc
  | querying hc h | dropped hc h => exact .inr ⟨_, _, rfl, hc, h⟩
  | answered h | closed h =>
    cases h with
    | refused hc => exact .inl hc
    | answered hc h => exact .inr ⟨_, _, rfl, hc, h⟩

/-- **Isolation of the regions.**  In every run of the server each pool makes a run of its own.  A pool
knows a request only if that request has the key and asks for a permitted method with a valid query that
selects this pool, no other pool knows it then, and at any moment the pools work on no more than 64
requests. -/
theorem pools_isolated {pools : ℕ → SessionPool ι σ PoolAnswer}
    (hpools : ∀ k i, (pools k).queries i = none)
    (hrun : Run (Gateway.step lib state) (initial pools) ts g) :
    (∀ k, Run SessionPool.step (pools k) ((part lib state k).project ts) (g.pools k)) ∧
    (∀ i k, (g.pools k).queries i ≠ none →
      ∃ stage call, g.requests i = some stage ∧ called ts i = [call] ∧
        Called lib state stage.request call ∧ call.pool = k ∧
        ∀ k', (g.pools k').queries i ≠ none → k' = k) ∧
    ∀ s : Finset ι, (∀ i ∈ s, ∃ k stage, (g.pools k).queries i = some stage ∧ live stage = true) →
      s.card ≤ admissionLimit := by
  refine ⟨fun k => runs_pool hrun k, fun i k hk => ?_, fun s hs => ?_⟩
  · have hlinked := linked_of_run hpools hrun i
    obtain ⟨call, hcall, hpool⟩ := hlinked.known k hk
    rcases (trace_of_run hrun i).called_cases with hnone | ⟨stage, call', hstage, hc, hcalled⟩
    · rw [hnone] at hcall
      cases hcall
    · rw [hc, List.mem_singleton] at hcall
      subst hcall
      refine ⟨stage, call, hstage, hc, hcalled, hpool, fun k' hk' => ?_⟩
      obtain ⟨call', hcall', hpool'⟩ := hlinked.known k' hk'
      rw [hc, List.mem_singleton] at hcall'
      rw [← hpool', hcall', hpool]
  · obtain ⟨n, hn, hlimit⟩ := (balanced_of_run hrun).permits
    refine (hn.card_le s fun i hi => ?_).trans (by omega)
    obtain ⟨k, stage, hstage, hlive⟩ := hs i hi
    obtain ⟨request, call, hquerying, -⟩ := (linked_of_run hpools hrun i).live k stage hstage hlive
    rw [hquerying]
    rfl

/-! ### The answers -/

/-- What the pool had for a request is what the cache of one of its members has answered. -/
theorem Returned.answered {pools : ℕ → SessionPool ι σ PoolAnswer}
    (hpools : ∀ k i, (pools k).queries i = none)
    (hrun : Run (Gateway.step lib state) (initial pools) ts g) {k : ℕ} {answer : PoolAnswer}
    (h : Returned ts i k (.ok answer)) : ∃ t ∈ ts, t.event = .pool k (.answer i (.ok answer)) := by
  obtain ⟨a, t, b, rfl, hreturned⟩ := h
  have hpool := runs_pool hrun.around.1 k
  have htrace := SessionPool.trace_of_run hpool (fun i => hpools k i) i
  rw [hreturned] at htrace
  rcases htrace.of_returned with ⟨⟨error, herror⟩, -⟩ | ⟨j, -, t', ht', he'⟩
  · cases herror
  · obtain ⟨t₀, ht₀, hown, -, -⟩ := (Part.mem_project _).1 ht'
    refine ⟨t₀, List.mem_append_left _ ht₀, ?_⟩
    rw [he'] at hown
    cases hevent : t₀.event with
    | pool k' e =>
      simp only [part, poolEvent, hevent] at hown
      split_ifs at hown with hk
      cases hown
      rw [hk]
    | body j body =>
      simp only [part, poolEvent, hevent] at hown
      split at hown
      · split at hown
        · split_ifs at hown
          cases hown
        · cases hown
      · cases hown
    | disconnect j =>
      simp only [part, poolEvent, hevent] at hown
      split at hown
      · split_ifs at hown
        cases hown
      · cases hown
    | arrive | authenticate | handle | respond | finish | advance =>
      simp [part, poolEvent, hevent] at hown

omit [DecidableEq ρ] in
/-- The response of a handler has data only if the cache has answered. -/
theorem respond_data {call : HttpCall} {result : Except ClientError PoolAnswer}
    {json : JsonTree.Value} (h : (MoenotesApi.respond lib state call result).body = .data json) :
    ∃ answer, result = .ok answer ∧ shown lib state.mode call.method answer.1.json = .ok json ∧
      MoenotesApi.respond lib state call result =
        ⟨200, call.headers ++ [("x-moenotes-cache", answer.2.text),
          ("x-moenotes-fetched-at", toString (unixMillis answer.1.fetchedAt))], .data json⟩ := by
  cases result with
  | error error => cases h
  | ok answer =>
    unfold MoenotesApi.respond at h ⊢
    cases hshown : shown lib state.mode call.method answer.1.json with
    | error error =>
      simp only [hshown] at h
      cases h
    | ok json' =>
      simp only [hshown] at h ⊢
      cases h
      exact ⟨answer, rfl, hshown, rfl⟩

omit [DecidableEq ρ] in
/-- The headers of a response with data. -/
theorem header_call {handler : Handler} {request : HttpRequest} {call : HttpCall}
    {params : Option (String → Option String)} {body : Option Bytes} {json : JsonTree.Value}
    (h : handler.call lib state request params body = .ok call) (answer : PoolAnswer) :
    let response : HttpResponse := ⟨200, call.headers ++ [("x-moenotes-cache", answer.2.text),
      ("x-moenotes-fetched-at", toString (unixMillis answer.1.fetchedAt))], .data json⟩
    response.header "x-moenotes-cache" = [answer.2.text] ∧
      response.header "x-moenotes-region" = call.region.toList.map Region.asStr := by
  rcases call_headers h with hheaders | ⟨hheaders, hregion⟩
  · cases hregion : call.region with
    | none => simp [HttpResponse.header, hheaders, hregion]
    | some region => simp [HttpResponse.header, hheaders, hregion]
  · simp [HttpResponse.header, hheaders, hregion]

/-- **What a client is shown.**  No response may be stored.  A response with data answers a request that
has the key and whose one query is of a permitted method: the data are what the cache of a member of the
selected pool has answered to that query, projected in the public mode, and the header names the
region of the pool if the route selects one. -/
theorem answers_sound {pools : ℕ → SessionPool ι σ PoolAnswer}
    (hpools : ∀ k i, (pools k).queries i = none)
    (hrun : Run (Gateway.step lib state) (initial pools) ts g) {request : HttpRequest}
    {response : HttpResponse} (hi : g.requests i = some (.closed request response)) :
    response.header "cache-control" = ["no-store"] ∧
    ∀ json, response.body = .data json →
      response.status = 200 ∧ ∃ call answer, called ts i = [call] ∧ Called lib state request call ∧
        (∃ t ∈ ts, t.event = .pool call.pool (.answer i (.ok answer))) ∧
        shown lib state.mode call.method answer.1.json = .ok json ∧
        response.header "x-moenotes-cache" = [answer.2.text] ∧
        response.header "x-moenotes-region" = call.region.toList.map Region.asStr := by
  have htrace := trace_of_run hrun i
  rw [hi] at htrace
  cases htrace with
  | @closed _ response id hsource =>
    refine ⟨response.tagged_cacheControl id, fun json hjson => ?_⟩
    rw [HttpResponse.tagged_body] at hjson
    cases hsource with
    | refused hc hdata => exact absurd ⟨json, hjson⟩ hdata
    | @answered call result hc hcalled hr =>
      obtain ⟨answer, rfl, hshown, heq⟩ := respond_data hjson
      obtain ⟨handler, params, hadmitted, hverb, hcall⟩ := hcalled
      refine ⟨by rw [HttpResponse.tagged_status, heq], call, answer, hc,
        ⟨handler, params, hadmitted, hverb, hcall⟩, hr.answered hpools hrun, hshown, ?_, ?_⟩
      · rw [HttpResponse.tagged_header _ _ _ (by decide) (by decide), heq]
        exact (header_call hcall answer).1
      · rw [HttpResponse.tagged_header _ _ _ (by decide) (by decide), heq]
        exact (header_call hcall answer).2

section Sample

theorem idlePools_queries (k i : ℕ) : (idlePools k).queries i = none := rfl

theorem pools_isolated_served :
    Run SessionPool.step (idlePools 0) ((part plainLibraries twoRegions 0).project servedRun)
      (servedGateway.pools 0) :=
  (pools_isolated idlePools_queries run_served).1 0

/-- The first request has been answered with data. -/
def showsData : Option RequestStage → Bool
  | some (.closed _ ⟨_, _, .data _⟩) => true
  | _ => false

theorem exists_closed_served : ∃ request response json,
    servedGateway.requests 0 = some (.closed request response) ∧ response.body = .data json := by
  have hshows : showsData (servedGateway.requests 0) = true := by decide +kernel
  unfold showsData at hshows
  split at hshows
  · next request _ _ json hclosed => exact ⟨request, _, json, hclosed, rfl⟩
  · cases hshows

theorem answers_sound_served : ∃ request response,
    servedGateway.requests 0 = some (.closed request response) ∧ response.status = 200 ∧
      ∃ call, Called plainLibraries twoRegions request call := by
  obtain ⟨request, response, json, hclosed, hjson⟩ := exists_closed_served
  obtain ⟨hstatus, call, -, -, hcalled, -⟩ :=
    (answers_sound idlePools_queries run_served hclosed).2 json hjson
  exact ⟨request, response, hclosed, hstatus, call, hcalled⟩

end Sample

end MoenotesApi.Gateway
