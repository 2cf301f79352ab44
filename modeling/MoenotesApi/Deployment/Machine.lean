import MoenotesApi.Gateway.Answers
import MoenotesApi.Cache.Freshness

/-!
# The server with the caches of its sessions

The HTTP server over its pools, and under each pool the caches of the members: `SessionPool::query`
calls `QueryCache::query` of the member that it has chosen, both look at the same client, and both have
the same token for the end.

* `front`: a step of the server in which no cache takes part;
* `enter`: a query of a pool begins its call of a cache; `answer`: the cache has returned;
* `cache`: a step of a cache of its own;
* `disconnect`: a request is dropped, and what it has called with it;
* `session`, `client`, `stop`, `advance`: what pools and caches see alike.

The member `j` of the pool `k` has the cache `caches k j`; a request has one name everywhere.
-/

namespace MoenotesApi

open JsonTree (Value)

/-- The server and its caches. -/
structure Deployment (ι σ : Type) where
  gateway : Gateway ι σ
  caches : ℕ → ℕ → QueryCache ι Value

/-- What does not change. -/
structure DeploymentSetup (M ρ : Type) where
  lib : HttpLibraries M ρ
  state : ApiState ρ
  codec : Codec Value
  options : CacheOptions

namespace Deployment

variable {ι σ M ρ : Type}

inductive Event (ι σ : Type)
  | front (e : Gateway.Event ι σ)
  | enter (k : ℕ) (i : ι)
  | answer (k : ℕ) (i : ι)
  | cache (k j : ℕ) (e : QueryCache.Event ι Value)
  | disconnect (i : ι)
  | session (k j : ℕ) (queryError : Bool → Option ClientError)
  | client (k j : ℕ) (queryError : Bool → Option ClientError) (managed : Option (ManagedView σ))
  | stop (k : ℕ)
  | advance (duration : ℕ)

/-- A server with these sessions, without any request. -/
def initial (members : ℕ → List (SessionPool.SessionMember σ)) (now : ℕ) : Deployment ι σ where
  gateway := .initial fun k => .initial (members k) now
  caches k j :=
    let m := (members k).getD j ⟨0, fun _ => none, none⟩
    .initial m.generation m.queryError now

/-- The steps of the server in which a cache or a client takes part. -/
def crossing : Gateway.Event ι σ → Bool
  | .pool _ (.enter _) | .pool _ (.answer _ _) | .pool _ (.session _ _) | .pool _ (.client _ _ _)
  | .pool _ .stop | .pool _ (.advance _) | .disconnect _ | .advance _ => true
  | _ => false

/-- The steps of a cache that begin or end with somebody else. -/
def outer : QueryCache.Event ι Value → Bool
  | .arrive _ _ | .drop _ | .client _ _ | .stop | .advance _ => true
  | _ => false

/-- The cache that works on the query `i` of the pool `k`. -/
def working (d : Deployment ι σ) (k : ℕ) (i : ι) : Option ℕ :=
  match (d.gateway.pools k).queries i with
  | some (.running j _) => some j
  | _ => none

/-- The member that the query `i` of the pool `k` is to be handed to, and the query. -/
def chosen (d : Deployment ι σ) (k : ℕ) (i : ι) : Option (ℕ × Query) :=
  match (d.gateway.pools k).queries i with
  | some (.chosen query j) => some (j, query)
  | _ => none

/-- The result that a cache has for the query `i` of the pool `k`. -/
def result (d : Deployment ι σ) (k : ℕ) (i : ι) : Option (Except ClientError PoolAnswer) :=
  (d.working k i).bind fun j =>
    match (d.caches k j).callers i with
    | some ⟨_, .returned _ result⟩ => some result
    | _ => none

/-- The pool whose query the request `i` waits for. -/
def waiting (d : Deployment ι σ) (i : ι) : Option ℕ :=
  match d.gateway.requests i with
  | some (.querying _ call) => some call.pool
  | _ => none

section Step

variable [DecidableEq ι] [DecidableEq ρ] [DecidableEq Value] (setup : DeploymentSetup M ρ)

def setCache (d : Deployment ι σ) (k j : ℕ) (c : QueryCache ι Value) : Deployment ι σ :=
  { d with caches := Function.update d.caches k (Function.update (d.caches k) j c) }

/-- One event of the server alone. -/
def stepGateway (d : Deployment ι σ) (e : Gateway.Event ι σ) : Option (Deployment ι σ) :=
  (d.gateway.step setup.lib setup.state e).map fun g => { d with gateway := g }

/-- One event of a cache alone. -/
def stepCache (d : Deployment ι σ) (k j : ℕ) (e : QueryCache.Event ι Value) :
    Option (Deployment ι σ) :=
  ((d.caches k j).step setup.codec setup.options e).map (d.setCache k j)

/-- One event. -/
def step (d : Deployment ι σ) : Event ι σ → Option (Deployment ι σ)
  | .front e => if crossing e then none else d.stepGateway setup e
  | .enter k i =>
    match d.chosen k i with
    | none => none
    | some (j, query) =>
      (d.stepGateway setup (.pool k (.enter i))).bind fun d =>
        d.stepCache setup k j (.arrive i query)
  | .answer k i =>
    match d.result k i with
    | none => none
    | some result => d.stepGateway setup (.pool k (.answer i result))
  | .cache k j e => if outer e then none else d.stepCache setup k j e
  | .disconnect i =>
    match d.waiting i with
    | none => d.stepGateway setup (.disconnect i)
    | some k =>
      match d.working k i with
      | none => none
      | some j =>
        (d.stepGateway setup (.disconnect i)).bind fun d => d.stepCache setup k j (.drop i)
  | .session k j queryError =>
    let generation := ((d.gateway.pools k).members j).generation + 1
    (d.stepGateway setup (.pool k (.session j queryError))).bind fun d =>
      d.stepCache setup k j (.client generation queryError)
  | .client k j queryError managed =>
    let generation := ((d.gateway.pools k).members j).generation
    (d.stepGateway setup (.pool k (.client j queryError managed))).bind fun d =>
      d.stepCache setup k j (.client generation queryError)
  | .stop k =>
    (d.stepGateway setup (.pool k .stop)).map fun d =>
      { d with caches := Function.update d.caches k fun j => { d.caches k j with stopped := true } }
  | .advance duration =>
    (d.stepGateway setup (.advance duration)).map fun d =>
      { d with caches := fun k j => { d.caches k j with now := (d.caches k j).now + duration } }

end Step

end Deployment

end MoenotesApi
