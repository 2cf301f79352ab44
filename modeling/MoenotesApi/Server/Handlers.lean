import MoenotesApi.Cache.Machine
import MoenotesApi.Server.Http
import MoenotesApi.Server.PathRoutes
import MoenotesApi.Server.Projection
import MoenotesApi.Server.Regions

/-!
# The routes of the HTTP server

`router_with_regions` and `path_routes.rs`: the routes that are installed, and what their handlers do
before and after the query of a pool.

* `Handler`, `installed`: the table of routes;
* `HttpLibraries`, `ApiState`, `routerWithRegions`;
* `execute`, `Handler.call`: from a request to the query of a pool, or to a refusal;
* `respond`: from the result of the query to the response.

What axum matches a path to is one of the patterns that were installed.
-/

namespace MoenotesApi

open FormText (Bytes utf8)
open JsonTree (Value)
open PathRoutes (Route)
open Projection (ResponseMode permitted)
open QueryParams (FormUrlencoded)

inductive Handler
  | health
  | document
  | readyz
  | status
  | query (method : String) (region : Option Region)
  | path (route : Route) (region : Option Region)
  deriving DecidableEq, Repr

/-- `ROUTES` of `lib.rs`. -/
def queryRoutes : List (String × String) :=
  [("/v1/announcement", "announcement"),
   ("/v1/announcements", "announcements"),
   ("/v1/arena/ranking", "arena-ranking"),
   ("/v1/arena/deck-trend", "deck-trend"),
   ("/v1/circle", "circle"),
   ("/v1/circles/recommended", "circle-recommendations"),
   ("/v1/circles/search", "circle-search"),
   ("/v1/event/challenge-ranking", "challenge-ranking"),
   ("/v1/event/deck", "event-deck"),
   ("/v1/event/ranking", "event-ranking"),
   ("/v1/profile", "profile"),
   ("/v1/gacha/rates", "probability"),
   ("/v1/music/ranking", "music-ranking"),
   ("/v1/profile/favorites", "favorite-status"),
   ("/v1/profiles", "profiles")]

def explicitRegions : List Region := [.tw, .en, .kr, .jp]

/-- `trim_start_matches("/v1")`. -/
def trimVersion : List Char → List Char
  | '/' :: 'v' :: '1' :: rest => trimVersion rest
  | chars => chars

/-- The path of a route for one region. -/
def regionPath (region : Region) (path : String) : String :=
  "/v1/" ++ region.asStr ++ String.ofList (trimVersion path.toList)

/-- The routes that `path_routes::install` adds. -/
def aliasRoutes : List (String × Handler) :=
  (PathRoutes.ROUTES.flatMap fun route =>
    (route.path, .path route none) :: explicitRegions.map fun region =>
      (regionPath region route.path, .path route (some region))) ++
  queryRoutes.flatMap fun route => explicitRegions.map fun region =>
    (regionPath region route.1, .query route.2 (some region))

/-- The routes behind the check of the key. -/
def protectedRoutes (mode : ResponseMode) : List (String × Handler) :=
  [("/openapi.json", .document), ("/readyz", .readyz), ("/v1/status", .status)] ++
    if mode = .disabled then []
    else aliasRoutes ++ queryRoutes.map fun route => (route.1, .query route.2 none)

def installed (mode : ResponseMode) : List (String × Handler) :=
  [("/health", .health), ("/healthz", .health)] ++ protectedRoutes mode

/-- The handler of a pattern. -/
def handlerOf (mode : ResponseMode) (pattern : String) : Option Handler :=
  ((installed mode).find? fun route => route.1 = pattern).map Prod.snd

/-- What axum's router finds for a path: a pattern, and the parameters of the path unless they are not
text. -/
structure Axum where
  find : List String → String → Option (String × Option (String → Option String))
  mem : ∀ patterns path found, find patterns path = some found → found.1 ∈ patterns

structure HttpLibraries (M ρ : Type) where
  axum : Axum
  sha256 : Bytes → ρ
  form : FormUrlencoded
  json : ProtobufJson
  encode : RequestMessage → List UInt8
  descriptors : DescriptorPool M

/-- The parts of `ApiState` that do not change; `cache` is the number of the pool of the routes
without a region. -/
structure ApiState (ρ : Type) where
  cache : ℕ
  keyHash : ρ
  mode : ResponseMode
  profiles : RegionClients

variable {M ρ : Type}

/-- The check of the key in `router_with_regions`. -/
def validKey (key : String) : Bool :=
  32 ≤ (utf8 key).length && (utf8 key).length ≤ 4096 &&
    (utf8 key).all fun b => 32 < b && b < 127

/-- `router_with_regions`; without a default region there is one more pool, `fresh`. -/
def routerWithRegions (lib : HttpLibraries M ρ) (opt : CacheOptions) (key : String)
    (mode : ResponseMode) (profiles : RegionClients) (fresh : ℕ) : Except ClientError (ApiState ρ) := do
  opt.validate
  .refuse (validKey key = false) badConfig
  return ⟨profiles.defaultCache.getD fresh, lib.sha256 (utf8 key), mode, profiles⟩

/-! ### From a request to a query -/

/-- A query that a handler makes, with the headers that the handler sets. -/
structure HttpCall where
  method : String
  query : TypedQuery
  region : Option Region
  pool : ℕ
  headers : List (String × String)

/-- `query.encode()`. -/
def HttpCall.encoded (lib : HttpLibraries M ρ) (call : HttpCall) : Query :=
  ⟨call.query.variant, lib.encode call.query.message, call.query.valid⟩

def invalidResponse : HttpResponse := httpError invalidRequest

/-- `execute`, up to the query. -/
def execute (lib : HttpLibraries M ρ) (state : ApiState ρ) (method : String) (raw : Option String)
    (region : Option Region) : Except HttpResponse HttpCall := do
  .refuse (permitted state.mode method = false) (refusal 403 "response_policy")
  let query ← (QueryParams.parse lib.form lib.json method raw).mapError httpError
  match region with
  | none => return ⟨method, query, none, state.cache, []⟩
  | some region =>
    match state.profiles.cache region with
    | none => .error (refusal 503 "region_unconfigured")
    | some pool =>
      return ⟨method, query, some region, pool, [("x-moenotes-region", region.asStr)]⟩

/-- The region whose pool an alias queries. -/
def selectedRegion (route : Route) (region : Option Region) (params : String → Option String) :
    Except HttpResponse (Option Region) :=
  if route.method = "profile" then
    match params "profileId" with
    | none => .error invalidResponse
    | some id =>
      if region = some .jp then
        if (parseI64 id).any fun n => 0 < n then .ok (some .jp) else .error invalidResponse
      else
        match Region.fromProfileId id with
        | .error kind => .error (refusal 400 kind)
        | .ok (inferred, _) =>
          if region.any fun r => r ≠ inferred then .error (refusal 400 "profile_region_mismatch")
          else .ok (some inferred)
  else .ok region

/-- `valid_path`. -/
def validPath (path : String) : Bool :=
  (utf8 path).length ≤ 8192 && FormText.wellFormed (utf8 path)

/-- What a handler does when the body has been read: `none` if it could not be. -/
def Handler.call (lib : HttpLibraries M ρ) (state : ApiState ρ) (request : HttpRequest)
    (params : Option (String → Option String)) (body : Option Bytes) : Handler → Except HttpResponse HttpCall
  | .query method none => do
    .refuse (body ≠ some []) invalidResponse
    .refuse (permitted state.mode method = false)
      { refusal 403 "response_policy" with headers := [("cache-control", "no-store")] }
    let call ← execute lib state method request.query none
    return { call with headers := [("cache-control", "no-store")] }
  | .query method (some region) => do
    .refuse (body ≠ some []) invalidResponse
    execute lib state method request.query (some region)
  | .path route region => do
    .refuse (validPath request.path = false) invalidResponse
    let some params := params
      | .error invalidResponse
    .refuse (body ≠ some []) invalidResponse
    let raw ← (PathRoutes.pathQuery lib.form route params request.query).mapError httpError
    let selected ← selectedRegion route region params
    execute lib state route.method (some raw) selected
  -- the other handlers read no body and make no query
  | _ => .error invalidResponse

/-! ### From the result to the response -/

def CacheStatus.text : CacheStatus → String
  | .hit => "HIT"
  | .coalesced => "COALESCED"
  | .miss => "MISS"

/-- What a pool returns. -/
abbrev PoolAnswer := CachedResponse Value × CacheStatus

/-- The JSON that is shown of a response. -/
def shown (lib : HttpLibraries M ρ) (mode : ResponseMode) (method : String) (json : Value) :
    Except ClientError Value :=
  if mode = .publicOnly then Projection.project lib.descriptors method json else .ok json

/-- `unix_millis`. -/
def unixMillis (time : ℕ) : ℕ := time / 10 ^ 6

/-- A handler, when its query has returned. -/
def respond (lib : HttpLibraries M ρ) (state : ApiState ρ) (call : HttpCall)
    (result : Except ClientError PoolAnswer) : HttpResponse :=
  match result with
  | .error error => httpError error
  | .ok (response, status) =>
    match shown lib state.mode call.method response.json with
    | .error error => httpError error
    | .ok json =>
      { status := 200
        headers := call.headers ++ [("x-moenotes-cache", status.text),
          ("x-moenotes-fetched-at", toString (unixMillis response.fetchedAt))]
        body := .data json }

/-! ### What the handlers ask for -/

section Calls

variable {lib : HttpLibraries M ρ} {state : ApiState ρ} {request : HttpRequest} {call : HttpCall}
variable {method : String} {raw : Option String} {region : Option Region}

/-- A query that `execute` makes. -/
structure Executed (lib : HttpLibraries M ρ) (state : ApiState ρ) (method : String)
    (raw : Option String) (region : Option Region) (call : HttpCall) : Prop where
  permitted : permitted state.mode method = true
  parsed : QueryParams.parse lib.form lib.json method raw = .ok call.query
  method_eq : call.method = method
  region_eq : call.region = region
  pool_eq : some call.pool = call.region.elim (some state.cache) state.profiles.cache

theorem mapError_eq_ok {ε ε' α : Type} {f : ε → ε'} {x : Except ε α} {a : α} :
    x.mapError f = .ok a ↔ x = .ok a := by
  cases x <;> simp [Except.mapError]

theorem execute_eq_ok (h : execute lib state method raw region = .ok call) :
    Executed lib state method raw region call ∧
      call.headers = region.toList.map fun region => ("x-moenotes-region", region.asStr) := by
  simp only [execute, Except.bind_eq_ok, Except.refuse_eq_ok, mapError_eq_ok] at h
  obtain ⟨-, hpermitted, query, hquery, h⟩ := h
  rw [Bool.not_eq_false] at hpermitted
  cases region with
  | none =>
    cases h
    exact ⟨⟨hpermitted, hquery, rfl, rfl, rfl⟩, rfl⟩
  | some region =>
    cases hpool : state.profiles.cache region with
    | none =>
      simp only [hpool] at h
      cases h
    | some pool =>
      simp only [hpool] at h
      cases h
      exact ⟨⟨hpermitted, hquery, rfl, rfl, hpool.symm⟩, rfl⟩

/-- `execute` makes every such query. -/
theorem exists_execute (h : Executed lib state method raw region call) :
    ∃ headers, execute lib state method raw region = .ok { call with headers := headers } := by
  obtain ⟨hpermitted, hparsed, rfl, rfl, hpool⟩ := h
  unfold execute
  rw [hpermitted, hparsed]
  cases hregion : call.region with
  | none =>
    rw [hregion] at hpool
    have hcache : state.cache = call.pool := (Option.some.inj hpool).symm
    refine ⟨[], ?_⟩
    simp [Except.refuse, Except.mapError, bind, Except.bind, pure, Except.pure, hcache]
  | some region =>
    rw [hregion] at hpool
    have hcache : state.profiles.cache region = some call.pool := hpool.symm
    refine ⟨[("x-moenotes-region", region.asStr)], ?_⟩
    simp [Except.refuse, Except.mapError, bind, Except.bind, pure, Except.pure, hcache]

/-- The queries of the routes with a query string. -/
theorem call_query_eq_ok {params : Option (String → Option String)} {body : Option Bytes}
    (h : (Handler.query method region).call lib state request params body = .ok call) :
    body = some [] ∧ Executed lib state method request.query region call := by
  cases region with
  | none =>
    simp only [Handler.call, Except.bind_eq_ok, Except.refuse_eq_ok, not_not,
      Except.pure_eq_ok] at h
    obtain ⟨-, hbody, -, -, call', hcall, rfl⟩ := h
    obtain ⟨hpermitted, hparsed, hmethod, hregion, hpool⟩ := (execute_eq_ok hcall).1
    exact ⟨hbody, hpermitted, hparsed, hmethod, hregion, hpool⟩
  | some region =>
    simp only [Handler.call, Except.bind_eq_ok, Except.refuse_eq_ok, not_not] at h
    obtain ⟨-, hbody, h⟩ := h
    exact ⟨hbody, (execute_eq_ok h).1⟩

/-- The routes with a query string make every such query. -/
theorem exists_call_query {params : Option (String → Option String)}
    (h : Executed lib state method request.query region call) :
    ∃ headers, (Handler.query method region).call lib state request params (some []) =
      .ok { call with headers := headers } := by
  obtain ⟨headers, hexecute⟩ := exists_execute h
  cases region with
  | none =>
    refine ⟨[("cache-control", "no-store")], ?_⟩
    simp [Handler.call, hexecute, h.permitted, Except.refuse, bind, Except.bind, pure, Except.pure]
  | some region =>
    refine ⟨headers, ?_⟩
    simp [Handler.call, hexecute, Except.refuse, bind, Except.bind]

/-- The queries of the routes with parameters in their path. -/
theorem call_alias_eq_ok {route : Route} {params : Option (String → Option String)}
    {body : Option Bytes}
    (h : (Handler.path route region).call lib state request params body = .ok call) :
    body = some [] ∧ validPath request.path = true ∧ ∃ params' raw selected, params = some params' ∧
      PathRoutes.pathQuery lib.form route params' request.query = .ok raw ∧
      selectedRegion route region params' = .ok selected ∧
      Executed lib state route.method (some raw) selected call := by
  cases params with
  | none =>
    simp only [Handler.call, Except.bind_eq_ok, Except.refuse_eq_ok] at h
    obtain ⟨-, -, h⟩ := h
    cases h
  | some params =>
    simp only [Handler.call, Except.bind_eq_ok, Except.refuse_eq_ok, not_not, Bool.not_eq_false,
      mapError_eq_ok] at h
    obtain ⟨-, hpath, -, hbody, raw, hraw, selected, hselected, h⟩ := h
    exact ⟨hbody, hpath, params, raw, selected, rfl, hraw, hselected, (execute_eq_ok h).1⟩

/-- What every call has in common: its method may be queried, and its query is valid. -/
theorem call_eq_ok {handler : Handler} {params : Option (String → Option String)}
    {body : Option Bytes} (h : handler.call lib state request params body = .ok call) :
    body = some [] ∧ ∃ raw, Executed lib state call.method raw call.region call := by
  cases handler with
  | query method region =>
    obtain ⟨hbody, hcall⟩ := call_query_eq_ok h
    obtain rfl := hcall.method_eq
    obtain rfl := hcall.region_eq
    exact ⟨hbody, _, hcall⟩
  | path route region =>
    obtain ⟨hbody, -, _, raw, selected, -, -, -, hcall⟩ := call_alias_eq_ok h
    have hmethod := hcall.method_eq
    have hregion := hcall.region_eq
    rw [← hmethod, ← hregion] at hcall
    exact ⟨hbody, _, hcall⟩
  | health | document | readyz | status =>
    simp only [Handler.call] at h
    cases h

/-- The headers of a call name the region that its route selects. -/
theorem call_headers {handler : Handler} {params : Option (String → Option String)}
    {body : Option Bytes} (h : handler.call lib state request params body = .ok call) :
    call.headers = call.region.toList.map (fun region => ("x-moenotes-region", region.asStr)) ∨
      call.headers = [("cache-control", "no-store")] ∧ call.region = none := by
  have hexecute {method : String} {raw : Option String} {region : Option Region} {call : HttpCall}
      (hcall : execute lib state method raw region = .ok call) :
      call.headers = call.region.toList.map fun region => ("x-moenotes-region", region.asStr) := by
    obtain ⟨hexecuted, hheaders⟩ := execute_eq_ok hcall
    rw [hheaders, hexecuted.region_eq]
  cases handler with
  | query method region =>
    cases region with
    | none =>
      simp only [Handler.call, Except.bind_eq_ok, Except.pure_eq_ok] at h
      obtain ⟨-, -, -, -, call', hcall, rfl⟩ := h
      exact .inr ⟨rfl, (execute_eq_ok hcall).1.region_eq⟩
    | some region =>
      simp only [Handler.call, Except.bind_eq_ok] at h
      obtain ⟨-, -, h⟩ := h
      exact .inl (hexecute h)
  | path route region =>
    cases params with
    | none =>
      simp only [Handler.call, Except.bind_eq_ok] at h
      obtain ⟨-, -, h⟩ := h
      cases h
    | some params =>
      simp only [Handler.call, Except.bind_eq_ok] at h
      obtain ⟨-, -, -, -, raw, -, selected, -, h⟩ := h
      exact .inl (hexecute h)
  | health | document | readyz | status =>
    simp only [Handler.call] at h
    cases h

end Calls

section Sample

/-- Paths without parameters, and no hash. -/
def plainLibraries : HttpLibraries Empty Bytes where
  axum :=
    { find := fun patterns path => if path ∈ patterns then some (path, none) else none
      mem := by
        intro patterns path found h
        split_ifs at h with hmem
        cases h
        exact hmem }
  sha256 := id
  form := QueryParams.whatwg
  json := canonicalJson
  encode := fun _ => []
  descriptors := ⟨fun m => m.elim, fun m => m.elim, fun _ => none⟩

/-- A server that shows whole responses of two regions. -/
def twoRegions : ApiState Bytes where
  cache := 0
  keyHash := utf8 "key"
  mode := .raw
  profiles := ⟨fun region => if region = .tw then some 0 else if region = .jp then some 1 else none,
    some .tw⟩

end Sample

end MoenotesApi
