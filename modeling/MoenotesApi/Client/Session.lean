import MoenotesApi.Client.Error
import MoenotesApi.Client.Version
import MoenotesApi.Library.Except

/-!
# Session configuration and credentials

`session.rs`: the configuration of a session, the credentials bound to a region and an origin, and
the metadata that goes with a call.

* `Libraries`: the third-party code that the client calls (URL parser, header values, endpoints,
  JSON);
* `SessionConfig.validate`, `SessionConfig.metadata`, `origin`;
* `StaticCredentials.provide`: the credentials, only for the region and origin they belong to;
* `Session` and `makeSession` (`lib.rs`).
-/

namespace MoenotesApi

/-- `Url` as far as `origin` reads it. -/
structure Url where
  scheme : String
  host : Option String
  username : String
  password : Option String
  query : Option String
  fragment : Option String
  path : String
  asciiOrigin : String
  deriving DecidableEq, Repr

/-- Third-party code: `Url::parse`, `MetadataValue::try_from`, `Endpoint::from_shared` with TLS, and
`serde_json::from_str` at the type `Payload`. -/
structure Libraries where
  parseUrl : String → Option Url
  headerValue : String → Bool
  endpoint : String → Bool
  parseAssets : String → Option AssetPayload

structure Credentials where
  playerId : String
  credential : String
  deviceId : Option String
  bid : Option String
  deriving DecidableEq, Repr

structure SessionConfig where
  region : String
  origin : String
  allowedOrigins : List String
  platform : String
  clientVersion : String
  masterVersion : Option String
  resourceVersion : Option String
  deriving DecidableEq, Repr

def badConfig : ClientError := .new .invalidConfig

/-- `session::origin`: the ASCII serialization of an `https` origin without any further part. -/
def origin (lib : Libraries) (value : String) : Except ClientError String :=
  match lib.parseUrl value with
  | none => .error badConfig
  | some url =>
    if url.scheme ≠ "https" ∨ url.host = none ∨ url.username ≠ "" ∨ url.password ≠ none ∨
        url.query ≠ none ∨ url.fragment ≠ none ∨ url.path ≠ "/" then .error badConfig
    else .ok url.asciiOrigin

/-- `origin(..).ok()`. -/
def origin? (lib : Libraries) (value : String) : Option String := (origin lib value).toOption

/-! ### Call metadata -/

/-- `MetadataMap`, with one value for a name. -/
abbrev Metadata := List (String × String)

/-- `MetadataMap::insert`. -/
def Metadata.put (map : Metadata) (key value : String) : Metadata :=
  map.filter (fun h => h.1 ≠ key) ++ [(key, value)]

/-- `MetadataMap::remove`. -/
def Metadata.remove (map : Metadata) (key : String) : Metadata :=
  map.filter fun h => h.1 ≠ key

/-- `MetadataMap::get`. -/
def Metadata.get (map : Metadata) (key : String) : Option String :=
  (map.find? fun h => h.1 = key).map Prod.snd

theorem Metadata.get_put (map : Metadata) (key value : String) :
    (map.put key value).get key = some value := by
  have hnone : (map.filter fun h => h.1 ≠ key).find? (fun h => h.1 = key) = none := by
    simp [List.find?_eq_none]
  simp only [get, put, List.find?_append, hnone]
  simp

theorem Metadata.get_put_of_ne (map : Metadata) {key key' : String} (value : String)
    (h : key' ≠ key) : (map.put key value).get key' = map.get key' := by
  simp only [get, put, List.find?_append, List.find?_filter]
  have hlast : List.find? (fun h => decide (h.1 = key')) [(key, value)] = none := by
    simp [Ne.symm h]
  rw [hlast, Option.or_none]
  congr 2
  funext x
  by_cases hx : x.1 = key' <;> simp [hx, h]

/-- `insert`: a value that is not a header value is a configuration error. -/
def insertHeader (lib : Libraries) (map : Metadata) (key value : String) :
    Except ClientError Metadata :=
  if lib.headerValue value then .ok (map.put key value) else .error badConfig

/-- `if let Some(value) = value { insert(..)? }`. -/
def insertOptional (lib : Libraries) (map : Metadata) (key : String) (value : Option String) :
    Except ClientError Metadata :=
  match value with
  | none => .ok map
  | some value => insertHeader lib map key value

namespace SessionConfig

/-- `SessionConfig::metadata`.  Anonymous calls carry no player credentials and no data versions. -/
def metadata (lib : Libraries) (config : SessionConfig) (credentials : Option Credentials)
    (requestId : String) (anonymous : Bool) : Except ClientError Metadata := do
  let result ← insertHeader lib [] "x-request-id" requestId
  let result ← insertHeader lib result "x-platform" config.platform
  let result ← insertHeader lib result "x-client-version" config.clientVersion
  match anonymous, credentials with
  | false, some auth =>
    .refuse (auth.playerId = "" ∨ auth.credential = "") badConfig
    let result ← insertHeader lib result "x-player-id" auth.playerId
    .refuse (config.region = "jp" ∧ auth.bid.isSome) badConfig
    let result ← insertHeader lib result "x-player-credential" auth.credential
    let result ← insertOptional lib result "x-device-id" auth.deviceId
    let result ←
      if config.region = "jp" then pure result
      else insertOptional lib result "x-player-bid" auth.bid
    let result ← insertOptional lib result "x-master-version" config.masterVersion
    if config.region = "jp" then pure result
    else insertOptional lib result "x-resource-version" config.resourceVersion
  | _, _ => pure result

/-- `SessionConfig::validate`. -/
def validate (lib : Libraries) (config : SessionConfig) : Except ClientError Unit := do
  let target ← MoenotesApi.origin lib config.origin
  .refuse (config.region = "" ∨ config.platform = "" ∨ config.clientVersion = "" ∨
      ¬ config.allowedOrigins.any (fun v => origin? lib v = some target) ∨
      (config.region ≠ "jp" ∧ config.masterVersion.isSome ≠ config.resourceVersion.isSome) ∨
      (config.region = "jp" ∧ (config.platform ≠ "android" ∨
        config.resourceVersion.isSome ∧ config.masterVersion = none)) ∨
      (config.region = "jp" ∧ config.masterVersion.any fun v => ¬ validMaster v))
    badConfig
  let _ ← config.metadata lib none "validation" false
  return ()

/-- The versions that a session presents, as one unit. -/
def triple (config : SessionConfig) : String × Option String × Option String :=
  (config.clientVersion, config.masterVersion, config.resourceVersion)

end SessionConfig

/-- `StaticCredentials`: credentials and the region and origin they belong to. -/
structure StaticCredentials where
  region : String
  origin : String
  credentials : Credentials
  deriving DecidableEq, Repr

/-- `CredentialProvider::credentials` of `StaticCredentials`. -/
def StaticCredentials.provide (lib : Libraries) (provider : StaticCredentials)
    (config : SessionConfig) : Except ClientError (Option Credentials) := do
  .refuse (provider.region ≠ config.region) badConfig
  let bound ← MoenotesApi.origin lib provider.origin
  let target ← MoenotesApi.origin lib config.origin
  .refuse (bound ≠ target) badConfig
  return some provider.credentials

/-! ### Sessions -/

/-- Where a transport sends its calls: `GrpcTransport` keeps the endpoint of its origin and the
region whose descriptors it decodes with. -/
structure Transport where
  origin : String
  region : String
  deriving DecidableEq, Repr

/-- `GrpcTransport::new`. -/
def grpcTransport (lib : Libraries) (config : SessionConfig) : Except ClientError Transport := do
  config.validate lib
  .refuse (lib.endpoint config.origin = false) badConfig
  return ⟨config.origin, config.region⟩

/-- `Session`, except its generation: the sessions of a client are numbered in the order in which
they are installed, and the number is the generation. -/
structure Session where
  config : SessionConfig
  credentials : Option Credentials
  transport : Transport
  cancelled : Bool
  blocked : Option ErrorKind
  masterMismatch : Bool
  jpOverridePending : Bool
  deriving DecidableEq, Repr

/-- A session that nothing has happened to yet. -/
def Session.fresh (config : SessionConfig) (credentials : Option Credentials)
    (transport : Transport) : Session where
  config := config
  credentials := credentials
  transport := transport
  cancelled := false
  blocked := none
  masterMismatch := false
  jpOverridePending := false

/-- The session that a registration installs: the next successful call overrides the device. -/
def Session.registered (config : SessionConfig) (credentials : Credentials)
    (transport : Transport) : Session :=
  { Session.fresh config (some credentials) transport with jpOverridePending := true }

/-- `Client::make_session`. -/
def makeSession (lib : Libraries) (config : SessionConfig) (provider : Option StaticCredentials)
    (transport : Transport) : Except ClientError Session := do
  config.validate lib
  let credentials ←
    match provider with
    | none => pure none
    | some provider => provider.provide lib config
  let _ ← config.metadata lib credentials "validation" false
  return .fresh config credentials transport

/-! ### Consequences -/

theorem StaticCredentials.provide_eq {lib : Libraries} {provider : StaticCredentials}
    {config : SessionConfig} {credentials : Option Credentials}
    (h : provider.provide lib config = .ok credentials) :
    credentials = some provider.credentials := by
  simp only [StaticCredentials.provide, Except.bind_eq_ok, Except.pure_eq_ok] at h
  obtain ⟨-, -, -, -, -, -, -, -, h⟩ := h
  exact h.symm

/-- A session that `make_session` builds is fresh, has the given configuration, and has the
credentials of the provider. -/
theorem makeSession_eq {lib : Libraries} {config : SessionConfig}
    {provider : Option StaticCredentials} {transport : Transport} {session : Session}
    (h : makeSession lib config provider transport = .ok session) :
    session = .fresh config (provider.map StaticCredentials.credentials) transport := by
  simp only [makeSession, Except.bind_eq_ok] at h
  obtain ⟨-, -, h⟩ := h
  cases provider with
  | none =>
    simp only [Except.bind_eq_ok, Except.pure_eq_ok] at h
    obtain ⟨c, rfl, -, -, h⟩ := h
    exact h.symm
  | some p =>
    simp only [Except.bind_eq_ok, Except.pure_eq_ok] at h
    obtain ⟨c, hc, -, -, h⟩ := h
    rw [← h, StaticCredentials.provide_eq hc]
    rfl

/-- The metadata of an anonymous call presents the client version. -/
theorem SessionConfig.get_metadata {lib : Libraries} {config : SessionConfig} {requestId : String}
    {map : Metadata} (h : config.metadata lib none requestId true = .ok map) :
    map.get "x-client-version" = some config.clientVersion := by
  simp only [SessionConfig.metadata, insertHeader, Except.bind_eq_ok, Except.pure_eq_ok] at h
  obtain ⟨-, -, m, -, m', hm, rfl⟩ := h
  split_ifs at hm
  cases hm
  exact Metadata.get_put _ _ _

/-! ### A sample configuration -/

/-- Enough of the libraries for one origin: visible ASCII is a header value, and no answer carries
an asset header. -/
def sampleLibraries : Libraries where
  parseUrl := fun value =>
    if value = "https://game.example" then
      some ⟨"https", some "game.example", "", none, none, none, "/", value⟩
    else none
  headerValue := fun value => value.toList.all fun c => ' ' ≤ c ∧ c ≤ '~'
  endpoint := fun value => value = "https://game.example"
  parseAssets := fun _ => none

def sampleConfig : SessionConfig where
  region := "global"
  origin := "https://game.example"
  allowedOrigins := ["https://game.example"]
  platform := "android"
  clientVersion := "1.0.0"
  masterVersion := none
  resourceVersion := none

def sampleCredentials : Credentials := ⟨"player", "token", none, none⟩

def sampleProvider : StaticCredentials := ⟨"global", "https://game.example", sampleCredentials⟩

def sampleTransport : Transport := ⟨"https://game.example", "global"⟩

example : makeSession sampleLibraries sampleConfig (some sampleProvider) sampleTransport =
    .ok (.fresh sampleConfig (some sampleCredentials) sampleTransport) := rfl

end MoenotesApi
