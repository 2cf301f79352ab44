import MoenotesApi.Pool.Machine
import MoenotesApi.Server.Handlers

/-!
# The HTTP server as a state machine

The server of `lib.rs` with any number of requests, over the session pools of its regions.

* a request: `arrive` (the counters of `diagnose`), `authenticate` (routing, the key, the semaphore),
  `handle` (the handler up to the body), `body` (the body has been read or not, and the handler makes its
  query), `respond` (the pool has returned), `finish` (the end of `diagnose`); `disconnect`, while it
  waits for its body or for the pool, drops it;
* the rest: `pool`, a step of one of the pools; `advance`.

The readiness that `/readyz` reports is what the pool answered meanwhile: the members are examined one
after the other.  A counter and a permit are each changed at one moment; a snapshot reads the counters
one by one.
-/

namespace MoenotesApi

open FormText (Bytes)

/-- The permits of the semaphore. -/
def admissionLimit : ℕ := 64

/-- How far a request has come. -/
inductive RequestStage
  | begun (request : HttpRequest)
  | admitted (request : HttpRequest) (handler : Handler) (params : Option (String → Option String))
  | reading (request : HttpRequest) (handler : Handler) (params : Option (String → Option String))
  | querying (request : HttpRequest) (call : HttpCall)
  | answered (request : HttpRequest) (response : HttpResponse)
  | closed (request : HttpRequest) (response : HttpResponse)
  | dropped (request : HttpRequest)

namespace RequestStage

def request : RequestStage → HttpRequest
  | begun request | admitted request _ _ | reading request _ _ | querying request _
  | answered request _ | closed request _ | dropped request => request

/-- The request holds a permit. -/
def permitted : RequestStage → Bool
  | admitted _ _ _ | reading _ _ _ | querying _ _ => true
  | _ => false

/-- The guard of `diagnose` is alive. -/
def inflight : RequestStage → Bool
  | closed _ _ | dropped _ => false
  | _ => true

/-- The response has been counted as an error. -/
def failed : RequestStage → Bool
  | closed _ response => response.failed
  | _ => false

end RequestStage

/-- The server and its requests, of the type `ι`; the pools are numbered. -/
structure Gateway (ι σ : Type) where
  pools : ℕ → SessionPool ι σ PoolAnswer
  permits : ℕ
  started : ℕ
  errors : ℕ
  inflight : ℕ
  requests : ι → Option RequestStage

namespace Gateway

variable {ι σ M ρ : Type}

inductive Event (ι σ : Type)
  | arrive (i : ι) (request : HttpRequest)
  | authenticate (i : ι)
  | handle (i : ι) (ready : Bool)
  | body (i : ι) (body : Option Bytes)
  | respond (i : ι)
  | finish (i : ι) (id : String)
  | disconnect (i : ι)
  | pool (k : ℕ) (e : SessionPool.Event ι σ PoolAnswer)
  | advance (duration : ℕ)

/-- A server with these pools, without any request. -/
def initial (pools : ℕ → SessionPool ι σ PoolAnswer) : Gateway ι σ where
  pools := pools
  permits := admissionLimit
  started := 0
  errors := 0
  inflight := 0
  requests := fun _ => none

/-- What a pool does of itself: calls of `query` and their end come from the requests, and the clock is
the clock of the server. -/
def inner : SessionPool.Event ι σ PoolAnswer → Bool
  | .query _ _ | .drop _ | .advance _ => false
  | _ => true

section Step

variable [DecidableEq ι]

def setRequest (g : Gateway ι σ) (i : ι) (stage : RequestStage) : Gateway ι σ :=
  { g with requests := Function.update g.requests i (some stage) }

def setPool (g : Gateway ι σ) (k : ℕ) (p : SessionPool ι σ PoolAnswer) : Gateway ι σ :=
  { g with pools := Function.update g.pools k p }

/-- The request gives its permit back. -/
def release (g : Gateway ι σ) : Gateway ι σ := { g with permits := g.permits + 1 }

/-- `authenticate`, in front of a handler. -/
def letIn [DecidableEq ρ] (lib : HttpLibraries M ρ) (state : ApiState ρ) (g : Gateway ι σ) (i : ι)
    (request : HttpRequest) (handler : Handler) (params : Option (String → Option String)) :
    Gateway ι σ :=
  if authorized lib.sha256 state.keyHash request.authorization = false then
    g.setRequest i (.answered request unauthorized)
  else if g.permits = 0 then g.setRequest i (.answered request (httpError (.new .queueFull)))
  else { g.setRequest i (.admitted request handler params) with permits := g.permits - 1 }

/-- Routing; only the routes behind the check of the key are checked. -/
def authenticate [DecidableEq ρ] (lib : HttpLibraries M ρ) (state : ApiState ρ) (g : Gateway ι σ) (i : ι)
    (request : HttpRequest) : Gateway ι σ :=
  match lib.axum.find ((installed state.mode).map Prod.fst) request.path with
  | none => g.setRequest i (.answered request ⟨404, [], .empty⟩)
  | some (pattern, params) =>
    match handlerOf state.mode pattern with
    | none => g.setRequest i (.answered request ⟨404, [], .empty⟩)
    | some handler =>
      if handler = .health then g.setRequest i (.answered request (healthAnswer request.verb))
      else g.letIn lib state i request handler params

/-- The handler up to its first await; a handler of a query has to read the body. -/
def handle (g : Gateway ι σ) (i : ι) (request : HttpRequest) (handler : Handler)
    (params : Option (String → Option String)) (ready : Bool) : Gateway ι σ :=
  match handler, request.verb with
  | .query _ _, .get | .path _ _, .get => g.setRequest i (.reading request handler params)
  | _, .other => (g.setRequest i (.answered request noHandler)).release
  | .query _ _, .head | .path _ _, .head =>
    (g.setRequest i (.answered request methodNotAllowed)).release
  | .readyz, _ =>
    (g.setRequest i (.answered request ⟨if ready then 200 else 503, [], .ready ready⟩)).release
  | .document, _ => (g.setRequest i (.answered request ⟨200, [], .document⟩)).release
  | .status, _ | .health, _ => (g.setRequest i (.answered request ⟨200, [], .report⟩)).release

/-- One event. -/
def step [DecidableEq ρ] (lib : HttpLibraries M ρ) (state : ApiState ρ) (g : Gateway ι σ) :
    Event ι σ → Option (Gateway ι σ)
  | .arrive i request =>
    match g.requests i with
    | none =>
      some { g.setRequest i (.begun request) with started := g.started + 1, inflight := g.inflight + 1 }
    | some _ => none
  | .authenticate i =>
    match g.requests i with
    | some (.begun request) => some (g.authenticate lib state i request)
    | _ => none
  | .handle i ready =>
    match g.requests i with
    | some (.admitted request handler params) => some (g.handle i request handler params ready)
    | _ => none
  | .body i body =>
    match g.requests i with
    | some (.reading request handler params) =>
      match handler.call lib state request params body with
      | .error response => some (g.setRequest i (.answered request response)).release
      | .ok call =>
        ((g.pools call.pool).step (.query i (call.encoded lib))).map fun p =>
          (g.setPool call.pool p).setRequest i (.querying request call)
    | _ => none
  | .respond i =>
    match g.requests i with
    | some (.querying request call) =>
      match (g.pools call.pool).queries i with
      | some (.returned result) =>
        some (g.setRequest i (.answered request (MoenotesApi.respond lib state call result))).release
      | _ => none
    | _ => none
  | .finish i id =>
    match g.requests i with
    | some (.answered request response) =>
      some { g.setRequest i (.closed request (response.tagged id)) with
        errors := g.errors + response.failed.toNat, inflight := g.inflight - 1 }
    | _ => none
  | .disconnect i =>
    match g.requests i with
    | some (.reading request _ _) =>
      some { (g.setRequest i (.dropped request)).release with inflight := g.inflight - 1 }
    | some (.querying request call) =>
      ((g.pools call.pool).step (.drop i)).map fun p =>
        { ((g.setPool call.pool p).setRequest i (.dropped request)).release with
          inflight := g.inflight - 1 }
    | _ => none
  | .pool k e =>
    if inner e then ((g.pools k).step e).map fun p => g.setPool k p else none
  | .advance duration =>
    some { g with pools := fun k => { g.pools k with now := (g.pools k).now + duration } }

end Step

end Gateway

end MoenotesApi
