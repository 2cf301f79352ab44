import MoenotesApi.Client.Session

/-!
# Operations of the client

What the public functions of the client ask for and what they do before they are admitted to the
serial slot (`query.rs`, `auth.rs`, `jp.rs`, `versions.rs`): the RPC methods, the typed queries, the
SDK authorization, and `prepare`, which captures a session and builds the call metadata.

* `Method`, `methods`, `Query`, `isLoginMethod`;
* `SdkAuthorization.checkBinding`, `buildRequest`;
* `Message`, `TransportResponse`: the answers, as far as the client decodes them;
* `Request`, `Op`, `Stage`: an operation and how far it has come.

A generation (`Uuid`) is the position of a session among all sessions ever installed in the client,
since `Generation::new_v4` never repeats a value; an instant is a number.  Request messages are not
modelled, except the encoded query: nothing reads them back.
-/

namespace MoenotesApi

/-! ### Methods and queries -/

structure Method where
  name : String
  path : String
  input : String
  output : String
  anonymous : Bool
  http : Bool
  deriving DecidableEq, Repr

/-- The variants of `Query`, one for each typed RPC. -/
inductive QueryVariant
  | announcement
  | announcements
  | arenaRanking
  | deckTrend
  | circle
  | circleRecommendations
  | circleSearch
  | challengeRanking
  | eventDeck
  | eventRanking
  | profile
  | probability
  | musicRanking
  | favoriteStatus
  | profiles
  | serverList
  | version
  | whoami
  deriving DecidableEq, Repr

/-- A row of the macro `queries!`. -/
def queryMethod (name service rpc input output : String) (anonymous http : Bool) : Method :=
  ⟨name, "/" ++ service ++ "/" ++ rpc, input, output, anonymous, http⟩

/-- The table of `queries!`. -/
def QueryVariant.method : QueryVariant → Method
  | announcement => queryMethod "announcement" "app.announcement.AnnouncementService" "Get"
      "app.announcement.GetRequest" "app.announcement.GetResponse" true true
  | announcements => queryMethod "announcements" "app.announcement.AnnouncementService" "GetList"
      "app.announcement.GetListRequest" "app.announcement.GetListResponse" true true
  | arenaRanking => queryMethod "arena-ranking" "app.arena.ArenaService" "ArenaRanking"
      "app.arena.ArenaRankingRequest" "app.arena.ArenaRankingResponse" false true
  | deckTrend => queryMethod "deck-trend" "app.arena.ArenaService" "DeckTrend"
      "app.arena.DeckTrendRequest" "app.arena.DeckTrendResponse" false true
  | circle => queryMethod "circle" "app.circle.CircleService" "GetCircleDetail"
      "app.circle.GetCircleRequest" "app.circle.GetCircleResponse" false true
  | circleRecommendations => queryMethod "circle-recommendations" "app.circle.CircleService"
      "GetRecommendedCircleList" "app.circle.GetRecommendedCircleListRequest"
      "app.circle.GetRecommendedCircleListResponse" false true
  | circleSearch => queryMethod "circle-search" "app.circle.CircleService" "Search"
      "app.circle.SearchRequest" "app.circle.SearchResponse" false true
  | challengeRanking => queryMethod "challenge-ranking" "app.event.EventService"
      "GetChallengeMusicRanking" "app.event.GetChallengeMusicRankingRequest"
      "app.event.GetChallengeMusicRankingResponse" false true
  | eventDeck => queryMethod "event-deck" "app.event.EventService" "GetDeck"
      "app.event.GetDeckRequest" "app.event.GetDeckResponse" false true
  | eventRanking => queryMethod "event-ranking" "app.event.EventService" "GetRankingList"
      "app.event.GetRankingListRequest" "app.event.GetRankingListResponse" false true
  | profile => queryMethod "profile" "app.friend.FriendService" "FindByProfileID"
      "app.friend.FindByProfileIDRequest" "app.friend.FindByProfileIDResponse" false true
  | probability => queryMethod "probability" "app.gacha.GachaService" "Probability"
      "app.gacha.ProbabilityRequest" "app.gacha.ProbabilityResponse" false true
  | musicRanking => queryMethod "music-ranking" "app.livemusic.LiveMusicService" "GetRanking"
      "app.livemusic.GetRankingRequest" "app.livemusic.GetRankingResponse" false true
  | favoriteStatus => queryMethod "favorite-status" "app.player.PlayerService"
      "GetPlayerFavoriteStatus" "app.player.GetPlayerFavoriteStatusRequest"
      "app.player.GetPlayerFavoriteStatusResponse" false true
  | profiles => queryMethod "profiles" "app.playerext.PlayerExtService" "GetPlayerList"
      "app.playerext.GetPlayerListRequest" "app.playerext.GetPlayerListResponse" false true
  | serverList => queryMethod "server-list" "app.playerlogin.PlayerLoginService" "GetServerList"
      "app.playerlogin.GetServerListRequest" "app.playerlogin.GetServerListResponse" true false
  | version => queryMethod "version" "app.masterdata.MasterdataService" "Version"
      "app.masterdata.VersionRequest" "app.masterdata.VersionResponse" true false
  | whoami => queryMethod "whoami" "app.player.PlayerService" "Whoami"
      "app.player.WhoamiRequest" "app.player.WhoamiResponse" false false

/-- `METHODS`. -/
def methods : List Method :=
  [QueryVariant.announcement, .announcements, .arenaRanking, .deckTrend, .circle,
    .circleRecommendations, .circleSearch, .challengeRanking, .eventDeck, .eventRanking, .profile,
    .probability, .musicRanking, .favoriteStatus, .profiles, .serverList, .version,
    .whoami].map QueryVariant.method

/-- `Query`: the typed request is kept as its encoding and as the verdict of `Query::validate`. -/
structure Query where
  variant : QueryVariant
  request : List UInt8
  valid : Bool
  deriving DecidableEq, Repr

def Query.method (query : Query) : Method := query.variant.method

/-- The names of the methods tell the typed queries apart. -/
theorem QueryVariant.eq_of_name {a b : QueryVariant} (h : a.method.name = b.method.name) :
    a = b := by
  revert h
  cases a <;> cases b <;> decide

/-- `Query::validate`. -/
def Query.validate (query : Query) : Except ClientError Unit :=
  .refuse (query.valid = false) (.new .invalidRequest)

/-- `Query::method_for_region`. -/
def Query.methodForRegion (query : Query) (region : String) : Except ClientError Method :=
  if region = "jp" then
    match query.variant with
    | .serverList => .error (.new .invalidRequest)
    | .profiles => .ok { query.method with
        path := "/app.player.PlayerService/GetPlayerList"
        input := "app.player.GetPlayerListRequest"
        output := "app.player.GetPlayerListResponse" }
    | _ => .ok query.method
  else .ok query.method

theorem Query.anonymous_of_methodForRegion {query : Query} {region : String} {method : Method}
    (h : query.methodForRegion region = .ok method) :
    method.anonymous = query.method.anonymous := by
  unfold Query.methodForRegion at h
  split_ifs at h
  · split at h <;> cases h <;> rfl
  · cases h
    rfl

/-- The query that `discover_versions` sends. -/
def versionQuery : Query := ⟨.version, [], true⟩

/-- `auth::LOGIN`. -/
def loginMethod : Method where
  name := "player-login"
  path := "/app.playerlogin.PlayerLoginService/PlayerLogin"
  input := "app.playerlogin.PlayerLoginRequest"
  output := "app.playerlogin.PlayerLoginResponse"
  anonymous := true
  http := false

/-- `auth::PRE_LOGIN`. -/
def preLoginMethod : Method where
  name := "player-pre-login"
  path := "/app.playerlogin.PlayerLoginService/PlayerPreLogin"
  input := loginMethod.input
  output := "app.playerlogin.PlayerPreLoginResponse"
  anonymous := true
  http := false

/-- `jp::REGISTER`. -/
def registerMethod : Method where
  name := "jp-register"
  path := "/app.player.PlayerService/Register"
  input := "app.player.RegisterRequest"
  output := "app.player.RegisterResponse"
  anonymous := true
  http := false

/-- The method of `jp_self_data`. -/
def selfDataMethod : Method where
  name := "jp-self-data"
  path := "/app.player.PlayerService/GetPlayerData"
  input := "app.player.GetPlayerDataRequest"
  output := "app.player.GetPlayerDataResponse"
  anonymous := false
  http := false

/-- `auth::is_login_method`. -/
def isLoginMethod (method : Method) : Bool := method = loginMethod || method = preLoginMethod

/-! ### SDK authorization -/

/-- `Callback`. -/
structure Callback where
  uid : String
  accessToken : String
  idToken : Option String
  deriving DecidableEq, Repr

structure SdkAuthorization where
  region : String
  origin : String
  callback : Callback
  deriving DecidableEq, Repr

structure AndroidLoginContext where
  deviceModel : String
  operatingSystem : String
  deviceIdentifier : String
  globalChannelId : ℕ
  brandId : ℕ
  areaId : ℕ
  deriving DecidableEq, Repr

/-- `SdkAuthorization::check_binding`. -/
def SdkAuthorization.checkBinding (lib : Libraries) (sdk : SdkAuthorization)
    (config : SessionConfig) : Except ClientError Unit := do
  .refuse (config.region = "jp" ∨ config.platform ≠ "android" ∨ sdk.region ≠ config.region)
    badConfig
  let target ← MoenotesApi.origin lib config.origin
  .refuse (sdk.origin ≠ target) badConfig

/-- The metadata of `build_request`. -/
def buildRequest (lib : Libraries) (config : SessionConfig) (sdk : SdkAuthorization)
    (context : AndroidLoginContext) (method : Method) (requestId : String) :
    Except ClientError Metadata := do
  sdk.checkBinding lib config
  .refuse ([context.deviceModel, context.operatingSystem, context.deviceIdentifier].any
    fun v => v = "" || 1024 < v.utf8ByteSize) (.new .invalidRequest)
  let metadata ← config.metadata lib none requestId true
  let metadata := if method = preLoginMethod then metadata.remove "x-client-version" else metadata
  .refuse (lib.headerValue sdk.callback.uid = false) (.new .invalidRequest)
  return metadata.put "x-player-bid" sdk.callback.uid

/-! ### Answers -/

/-- A response message, decoded as far as the client reads it. -/
inductive Message
  | plain (descriptor : String) (bytes : List UInt8)
  | version (master resource : String)
  | preLogin (isAccountCreated : Bool)
  | login (credential : Option (String × String)) (isNewUser : ℕ)
  | register (id credential deviceId : String)
  deriving DecidableEq, Repr

/-- The full name of the message's descriptor. -/
def Message.descriptor : Message → String
  | .plain descriptor _ => descriptor
  | .version _ _ => QueryVariant.version.method.output
  | .preLogin _ => preLoginMethod.output
  | .login _ _ => loginMethod.output
  | .register _ _ _ => registerMethod.output

structure TransportResponse where
  message : Message
  assetVersion : Option String
  deriving DecidableEq, Repr

/-- What an operation that succeeds returns. -/
inductive Outcome
  | response (message : Message) (generation : ℕ)
  | selfData (message : Message)
  | roleExists (created : Bool)
  | receipt (generation : ℕ) (isNewUser : ℕ)
  | registered
  | versions (changed : Bool)
  deriving DecidableEq, Repr

/-! ### Operations -/

/-- A call of a public function, with the generation it names. -/
inductive Request
  | execute (generation : ℕ) (query : Query)
  | selfData (generation : ℕ)
  | preLogin (generation : ℕ) (sdk : SdkAuthorization) (context : AndroidLoginContext)
  | login (generation : ℕ) (sdk : SdkAuthorization) (context : AndroidLoginContext)
  | register (generation : ℕ) (outputsFree : Bool)
  | version (generation : ℕ) (candidate : Option String)

/-- The generation that a request names. -/
def Request.generation : Request → ℕ
  | .execute g _ | .selfData g | .preLogin g _ _ | .login g _ _ | .register g _ | .version g _ => g

/-- The closure `finish` of an operation, with what it has captured. -/
inductive Call
  | query
  | selfData
  | preLogin
  | login (uid : String)
  | register
  | version (presented : SessionConfig)
  deriving DecidableEq, Repr

/-- The closures of a login and of a registration install credentials. -/
def Call.installsCredentials : Call → Bool
  | .login _ | .register => true
  | _ => false

/-- How far an operation has come in `run_operation_response`. -/
inductive Stage
  | prepared
  | queued
  | slot
  | calling (overrideSent : Bool)
  | answered (response : TransportResponse)
  | checked (response : TransportResponse)
  deriving DecidableEq, Repr

/-- The answer that an operation holds. -/
def Stage.response : Stage → Option TransportResponse
  | .answered response | .checked response => some response
  | _ => none

/-- An operation under way. -/
structure Op where
  generation : ℕ
  method : Method
  metadata : Metadata
  call : Call
  cancelled : Bool
  stage : Stage
  deriving DecidableEq, Repr

/-- An operation: under way, or returned with a result that its caller has not taken yet. -/
inductive OpState
  | running (op : Op)
  | done (result : Except ClientError Outcome)

end MoenotesApi
