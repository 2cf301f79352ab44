import MoenotesApi.Gateway.Machine
import MoenotesApi.Library.Parts
import MoenotesApi.Pool.Cooldown

/-!
# What one event does to the HTTP server

`Gateway.Step g e g'` lists the ways in which an event can happen; `Step.of_step` is the inversion
lemma of `Gateway.step`.

* `Routed`, `Admitted`, `Called`: how far a request can get by its own contents; `Refused`: the answers
  of `authenticate`;
* `part`, `runs_pool`: what happens to a pool is a run of that pool.
-/

namespace MoenotesApi

open FormText (Bytes)
open Runs

namespace Gateway

variable {ι σ M ρ : Type}

/-- axum matches the path to a route with this handler. -/
def Routed (lib : HttpLibraries M ρ) (state : ApiState ρ) (request : HttpRequest) (handler : Handler)
    (params : Option (String → Option String)) : Prop :=
  ∃ pattern, lib.axum.find ((installed state.mode).map Prod.fst) request.path = some (pattern, params) ∧
    handlerOf state.mode pattern = some handler

/-- The request has the key and asks for something that needs the key. -/
structure Admitted [DecidableEq ρ] (lib : HttpLibraries M ρ) (state : ApiState ρ)
    (request : HttpRequest) (handler : Handler) (params : Option (String → Option String)) : Prop where
  routed : Routed lib state request handler params
  guarded : handler ≠ .health
  key : authorized lib.sha256 state.keyHash request.authorization = true

/-- The request makes this query. -/
def Called [DecidableEq ρ] (lib : HttpLibraries M ρ) (state : ApiState ρ) (request : HttpRequest)
    (call : HttpCall) : Prop :=
  ∃ handler params, Admitted lib state request handler params ∧ request.verb = .get ∧
    handler.call lib state request params (some []) = .ok call

/-- The answers of `authenticate`, and of axum in front of it. -/
inductive Refused [DecidableEq ρ] (lib : HttpLibraries M ρ) (state : ApiState ρ) (permits : ℕ)
    (request : HttpRequest) : HttpResponse → Prop
  | unknown (h : ∀ handler params, ¬ Routed lib state request handler params) :
      Refused lib state permits request ⟨404, [], .empty⟩
  | health {params} (h : Routed lib state request .health params) :
      Refused lib state permits request (healthAnswer request.verb)
  | unauthorized {handler params} (h : Routed lib state request handler params)
      (hguard : handler ≠ .health)
      (hkey : authorized lib.sha256 state.keyHash request.authorization = false) :
      Refused lib state permits request unauthorized
  | full {handler params} (h : Admitted lib state request handler params) (hpermits : permits = 0) :
      Refused lib state permits request (httpError (.new .queueFull))

/-- The response shows data of a pool. -/
def HasData (response : HttpResponse) : Prop := ∃ json, response.body = .data json

theorem not_hasData_httpError (error : ClientError) : ¬ HasData (httpError error) := by
  rintro ⟨json, h⟩
  cases h

theorem not_hasData_refusal (status : ℕ) (kind : String) (headers : List (String × String) := []) :
    ¬ HasData { refusal status kind with headers := headers } := by
  rintro ⟨json, h⟩
  cases h

theorem errors_mapError {α : Type} {f : ClientError → HttpResponse} (hf : ∀ e, ¬ HasData (f e))
    (x : Except ClientError α) : Except.Errors (fun response => ¬ HasData response) (x.mapError f) := by
  cases x with
  | error e => exact Except.errors_error.2 (hf e)
  | ok a => exact Except.errors_ok

theorem Refused.not_hasData [DecidableEq ρ] {lib : HttpLibraries M ρ} {state : ApiState ρ}
    {permits : ℕ} {request : HttpRequest} {response : HttpResponse}
    (h : Refused lib state permits request response) : ¬ HasData response := by
  rintro ⟨json, hjson⟩
  cases h with
  | health =>
    unfold healthAnswer at hjson
    split at hjson <;> cases hjson
  | unknown | unauthorized | full => cases hjson

/-- A handler refuses a request without showing data. -/
theorem errors_execute (lib : HttpLibraries M ρ) (state : ApiState ρ) (method : String)
    (raw : Option String) (region : Option Region) :
    Except.Errors (fun response => ¬ HasData response) (execute lib state method raw region) := by
  unfold execute
  refine .bind (Except.errors_refuse.2 fun _ => not_hasData_refusal _ _) fun _ => ?_
  refine .bind (errors_mapError not_hasData_httpError _) fun query => ?_
  cases region with
  | none => exact Except.errors_pure
  | some region =>
    dsimp only
    cases state.profiles.cache region with
    | none => exact Except.errors_error.2 (not_hasData_refusal _ _)
    | some pool => exact Except.errors_pure

theorem errors_selectedRegion (route : PathRoutes.Route) (region : Option Region)
    (params : String → Option String) :
    Except.Errors (fun response => ¬ HasData response) (selectedRegion route region params) := by
  have hinvalid : ¬ HasData invalidResponse := not_hasData_httpError _
  unfold selectedRegion
  refine .ite ?_ Except.errors_ok
  cases params "profileId" with
  | none => exact Except.errors_error.2 hinvalid
  | some id =>
    refine .ite (.ite Except.errors_ok (Except.errors_error.2 hinvalid)) ?_
    cases Region.fromProfileId id with
    | error kind => exact Except.errors_error.2 (not_hasData_refusal _ _)
    | ok inferred =>
      exact .ite (Except.errors_error.2 (not_hasData_refusal _ _)) Except.errors_ok

theorem errors_call (lib : HttpLibraries M ρ) (state : ApiState ρ) (request : HttpRequest)
    (params : Option (String → Option String)) (body : Option Bytes) (handler : Handler) :
    Except.Errors (fun response => ¬ HasData response)
      (handler.call lib state request params body) := by
  have hinvalid : ¬ HasData invalidResponse := not_hasData_httpError _
  cases handler with
  | query method region =>
    cases region with
    | none =>
      refine .bind (Except.errors_refuse.2 fun _ => hinvalid) fun _ => ?_
      refine .bind (Except.errors_refuse.2 fun _ => not_hasData_refusal _ _) fun _ => ?_
      exact (errors_execute _ _ _ _ _).bind fun _ => Except.errors_pure
    | some region =>
      refine .bind (Except.errors_refuse.2 fun _ => hinvalid) fun _ => ?_
      exact errors_execute _ _ _ _ _
  | path route region =>
    refine .bind (Except.errors_refuse.2 fun _ => hinvalid) fun _ => ?_
    cases params with
    | none => exact Except.errors_error.2 hinvalid
    | some params =>
      refine .bind (Except.errors_refuse.2 fun _ => hinvalid) fun _ => ?_
      refine .bind (errors_mapError not_hasData_httpError _) fun raw => ?_
      exact (errors_selectedRegion _ _ _).bind fun _ => errors_execute _ _ _ _ _
  | health | document | readyz | status => exact Except.errors_error.2 hinvalid

/-! ### Updates -/

section Updates

variable [DecidableEq ι] (g : Gateway ι σ) (i : ι) (stage : RequestStage) (k : ℕ)
variable (p : SessionPool ι σ PoolAnswer)

@[simp] theorem setRequest_pools : (g.setRequest i stage).pools = g.pools := rfl
@[simp] theorem setRequest_permits : (g.setRequest i stage).permits = g.permits := rfl
@[simp] theorem setRequest_started : (g.setRequest i stage).started = g.started := rfl
@[simp] theorem setRequest_errors : (g.setRequest i stage).errors = g.errors := rfl
@[simp] theorem setRequest_inflight : (g.setRequest i stage).inflight = g.inflight := rfl
@[simp] theorem setRequest_requests :
    (g.setRequest i stage).requests = Function.update g.requests i (some stage) := rfl

omit [DecidableEq ι] in
@[simp] theorem release_pools : g.release.pools = g.pools := rfl
omit [DecidableEq ι] in
@[simp] theorem release_permits : g.release.permits = g.permits + 1 := rfl
omit [DecidableEq ι] in
@[simp] theorem release_started : g.release.started = g.started := rfl
omit [DecidableEq ι] in
@[simp] theorem release_errors : g.release.errors = g.errors := rfl
omit [DecidableEq ι] in
@[simp] theorem release_inflight : g.release.inflight = g.inflight := rfl
omit [DecidableEq ι] in
@[simp] theorem release_requests : g.release.requests = g.requests := rfl

omit [DecidableEq ι] in
@[simp] theorem setPool_pools : (g.setPool k p).pools = Function.update g.pools k p := rfl
omit [DecidableEq ι] in
@[simp] theorem setPool_permits : (g.setPool k p).permits = g.permits := rfl
omit [DecidableEq ι] in
@[simp] theorem setPool_started : (g.setPool k p).started = g.started := rfl
omit [DecidableEq ι] in
@[simp] theorem setPool_errors : (g.setPool k p).errors = g.errors := rfl
omit [DecidableEq ι] in
@[simp] theorem setPool_inflight : (g.setPool k p).inflight = g.inflight := rfl
omit [DecidableEq ι] in
@[simp] theorem setPool_requests : (g.setPool k p).requests = g.requests := rfl

end Updates

/-! ### Inversion -/

variable [DecidableEq ι] [DecidableEq ρ]

/-- `g.step e` can lead to `g'`, by the named branch. -/
inductive Step (lib : HttpLibraries M ρ) (state : ApiState ρ) :
    Gateway ι σ → Event ι σ → Gateway ι σ → Prop
  | arrive {g i request} (hi : g.requests i = none) :
      Step lib state g (.arrive i request)
        { g.setRequest i (.begun request) with
          started := g.started + 1, inflight := g.inflight + 1 }
  | refuse {g i request response} (hi : g.requests i = some (.begun request))
      (h : Refused lib state g.permits request response) :
      Step lib state g (.authenticate i) (g.setRequest i (.answered request response))
  | letIn {g i request handler params} (hi : g.requests i = some (.begun request))
      (h : Admitted lib state request handler params) (hpermits : g.permits ≠ 0) :
      Step lib state g (.authenticate i)
        { g.setRequest i (.admitted request handler params) with permits := g.permits - 1 }
  | read {g i request handler params ready}
      (hi : g.requests i = some (.admitted request handler params)) (hverb : request.verb = .get) :
      Step lib state g (.handle i ready) (g.setRequest i (.reading request handler params))
  | reply {g i request handler params ready response}
      (hi : g.requests i = some (.admitted request handler params)) (hdata : ¬ HasData response) :
      Step lib state g (.handle i ready) (g.setRequest i (.answered request response)).release
  | reject {g i request handler params body response}
      (hi : g.requests i = some (.reading request handler params))
      (hcall : handler.call lib state request params body = .error response) :
      Step lib state g (.body i body) (g.setRequest i (.answered request response)).release
  | query {g i request handler params body call p}
      (hi : g.requests i = some (.reading request handler params))
      (hcall : handler.call lib state request params body = .ok call)
      (hp : (g.pools call.pool).step (.query i (call.encoded lib)) = some p) :
      Step lib state g (.body i body)
        ((g.setPool call.pool p).setRequest i (.querying request call))
  | respond {g i request call result} (hi : g.requests i = some (.querying request call))
      (hr : (g.pools call.pool).queries i = some (.returned result)) :
      Step lib state g (.respond i)
        (g.setRequest i (.answered request (MoenotesApi.respond lib state call result))).release
  | finish {g i request response id} (hi : g.requests i = some (.answered request response)) :
      Step lib state g (.finish i id)
        { g.setRequest i (.closed request (response.tagged id)) with
          errors := g.errors + response.failed.toNat, inflight := g.inflight - 1 }
  | leave {g i request handler params} (hi : g.requests i = some (.reading request handler params)) :
      Step lib state g (.disconnect i)
        { (g.setRequest i (.dropped request)).release with inflight := g.inflight - 1 }
  | quit {g i request call p} (hi : g.requests i = some (.querying request call))
      (hp : (g.pools call.pool).step (.drop i) = some p) :
      Step lib state g (.disconnect i)
        { ((g.setPool call.pool p).setRequest i (.dropped request)).release with
          inflight := g.inflight - 1 }
  | pool {g k e p} (he : inner e = true) (hp : (g.pools k).step e = some p) :
      Step lib state g (.pool k e) (g.setPool k p)
  | advance {g duration} :
      Step lib state g (.advance duration)
        { g with pools := fun k => { g.pools k with now := (g.pools k).now + duration } }

variable {lib : HttpLibraries M ρ} {state : ApiState ρ} {g g' : Gateway ι σ} {e : Event ι σ} {i : ι}

theorem Step.of_letIn {request : HttpRequest} {handler : Handler}
    {params : Option (String → Option String)} (hi : g.requests i = some (.begun request))
    (h : Routed lib state request handler params) (hguard : handler ≠ .health) :
    Step lib state g (.authenticate i) (g.letIn lib state i request handler params) := by
  unfold Gateway.letIn
  split_ifs with hkey hpermits
  · exact .refuse hi (.unauthorized h hguard hkey)
  · exact .refuse hi (.full ⟨h, hguard, by simpa using hkey⟩ hpermits)
  · exact .letIn hi ⟨h, hguard, by simpa using hkey⟩ hpermits

theorem Step.of_authenticate {request : HttpRequest} (hi : g.requests i = some (.begun request)) :
    Step lib state g (.authenticate i) (g.authenticate lib state i request) := by
  unfold authenticate
  split
  · next hfind =>
    refine .refuse hi (.unknown ?_)
    rintro handler params ⟨pattern, hfound, -⟩
    rw [hfind] at hfound
    cases hfound
  · next pattern params hfind =>
    split
    · next hnone =>
      refine .refuse hi (.unknown ?_)
      rintro handler params' ⟨pattern', hfound, hsome⟩
      rw [hfind] at hfound
      cases hfound
      rw [hnone] at hsome
      cases hsome
    · next handler hhandler =>
      have hrouted : Routed lib state request handler params := ⟨pattern, hfind, hhandler⟩
      split_ifs with hguard
      · subst hguard
        exact .refuse hi (.health hrouted)
      · exact .of_letIn hi hrouted hguard

theorem Step.of_handle {request : HttpRequest} {handler : Handler}
    {params : Option (String → Option String)} {ready : Bool}
    (hi : g.requests i = some (.admitted request handler params)) :
    Step lib state g (.handle i ready) (g.handle i request handler params ready) := by
  have hreply : ∀ response : HttpResponse, ¬ HasData response →
      Step lib state g (.handle i ready) (g.setRequest i (.answered request response)).release :=
    fun response hdata => .reply hi hdata
  unfold handle
  split
  · next hverb => exact .read hi hverb
  · next hverb => exact .read hi hverb
  all_goals
    refine hreply _ ?_
    rintro ⟨json, h⟩
    cases h

theorem Step.of_step (h : g.step lib state e = some g') : Step lib state g e g' := by
  cases e with
  | arrive i request =>
    simp only [step] at h
    split at h
    · next hi =>
      obtain rfl := Option.some.inj h
      exact .arrive hi
    · cases h
  | authenticate i =>
    simp only [step] at h
    split at h
    · next request hi =>
      obtain rfl := Option.some.inj h
      exact .of_authenticate hi
    · cases h
  | handle i ready =>
    simp only [step] at h
    split at h
    · next request handler params hi =>
      obtain rfl := Option.some.inj h
      exact .of_handle hi
    · cases h
  | body i body =>
    simp only [step] at h
    split at h
    · next request handler params hi =>
      split at h
      · next response hcall =>
        obtain rfl := Option.some.inj h
        exact .reject hi hcall
      · next call hcall =>
        obtain ⟨p, hp, rfl⟩ := Option.map_eq_some_iff.1 h
        exact .query hi hcall hp
    · cases h
  | respond i =>
    simp only [step] at h
    split at h
    · next request call hi =>
      split at h
      · next result hr =>
        obtain rfl := Option.some.inj h
        exact .respond hi hr
      · cases h
    · cases h
  | finish i id =>
    simp only [step] at h
    split at h
    · next request response hi =>
      obtain rfl := Option.some.inj h
      exact .finish hi
    · cases h
  | disconnect i =>
    simp only [step] at h
    split at h
    · next request handler params hi =>
      obtain rfl := Option.some.inj h
      exact .leave hi
    · next request call hi =>
      obtain ⟨p, hp, rfl⟩ := Option.map_eq_some_iff.1 h
      exact .quit hi hp
    · cases h
  | pool k e =>
    simp only [step] at h
    split_ifs at h with he
    obtain ⟨p, hp, rfl⟩ := Option.map_eq_some_iff.1 h
    exact .pool he hp
  | advance duration =>
    obtain rfl := Option.some.inj h
    exact .advance

/-! ### The pools -/

/-- The event of the pool `k` within an event of the server. -/
def poolEvent (lib : HttpLibraries M ρ) (state : ApiState ρ) (k : ℕ) (g : Gateway ι σ) :
    Event ι σ → Option (SessionPool.Event ι σ PoolAnswer)
  | .body i body =>
    match g.requests i with
    | some (.reading request handler params) =>
      match handler.call lib state request params body with
      | .ok call => if call.pool = k then some (.query i (call.encoded lib)) else none
      | .error _ => none
    | _ => none
  | .disconnect i =>
    match g.requests i with
    | some (.querying _ call) => if call.pool = k then some (.drop i) else none
    | _ => none
  | .pool k' e => if k' = k then some e else none
  | .advance duration => some (.advance duration)
  | _ => none

/-- The pool `k` within the server. -/
def part (lib : HttpLibraries M ρ) (state : ApiState ρ) (k : ℕ) :
    Part (Gateway ι σ) (Event ι σ) (SessionPool ι σ PoolAnswer) (SessionPool.Event ι σ PoolAnswer) where
  view g := g.pools k
  own := poolEvent lib state k

theorem Step.moves (h : Step lib state g e g') (k : ℕ) :
    (part lib state k).Moves SessionPool.step g e g' := by
  have other (hown : (part lib state k).own g e = none) (hview : g'.pools k = g.pools k) :
      (part lib state k).Moves SessionPool.step g e g' := by
    refine ⟨fun _ => hview, fun d hd => ?_⟩
    rw [hown] at hd
    cases hd
  have own (d : SessionPool.Event ι σ PoolAnswer) (hown : (part lib state k).own g e = some d)
      (hstep : (g.pools k).step d = some (g'.pools k)) :
      (part lib state k).Moves SessionPool.step g e g' := by
    constructor
    · intro hnone
      rw [hown] at hnone
      cases hnone
    · intro d' hd
      rw [hown] at hd
      cases hd
      exact hstep
  cases h with
  | arrive | refuse | letIn | read | reply | respond | finish => exact other rfl rfl
  | reject hi hcall => exact other (by simp [part, poolEvent, hi, hcall]) rfl
  | @query i request handler params body call p hi hcall hp =>
    by_cases hk : call.pool = k
    · subst hk
      exact own (.query i (call.encoded lib)) (by simp [part, poolEvent, hi, hcall])
        (by simpa using hp)
    · exact other (by simp [part, poolEvent, hi, hcall, hk]) (by simp [Ne.symm hk])
  | leave hi => exact other (by simp [part, poolEvent, hi]) rfl
  | @quit i request call p hi hp =>
    by_cases hk : call.pool = k
    · subst hk
      exact own (.drop i) (by simp [part, poolEvent, hi]) (by simpa using hp)
    · exact other (by simp [part, poolEvent, hi, hk]) (by simp [Ne.symm hk])
  | @pool k' e p he hp =>
    by_cases hk : k' = k
    · subst hk
      exact own e (by simp [part, poolEvent]) (by simpa using hp)
    · exact other (by simp [part, poolEvent, hk]) (by simp [Ne.symm hk])
  | advance => exact own _ rfl rfl

/-- What happens to a pool in a run of the server is a run of that pool. -/
theorem runs_pool {ts : List (Transition (Gateway ι σ) (Event ι σ))}
    (h : Run (step lib state) g ts g') (k : ℕ) :
    Run SessionPool.step (g.pools k) ((part lib state k).project ts) (g'.pools k) :=
  (part lib state k).run_project h fun _ ht => (Step.of_step (h.step_of_mem ht)).moves k

end Gateway

end MoenotesApi
