import MoenotesApi.Client.Session
import MoenotesApi.Sdk.Reply

/-!
# The HTTP client of the SDK

`SdkHttpClient` (`sdk_http.rs`): what a call sends, and what it makes of the body.

* `normalizeBase`, `SdkHttpClient.new`: a client and what its constructor has checked;
* `SdkHttpClient.request`, `SdkHttpClient.post`, `SdkHttpClient.reply`: the three parts of a call;
* `request_path`, `post_url`: where a request goes;
* `Gives`, `gives_of_reply`: what a call can get.
-/

namespace MoenotesApi.SdkHttp

open FormText

def RSA_PATH : String := "/gapi/client/rsa"

def PASSWORD_PATH : String := "/gapi/client/login"

def CACHE_PATH : String := "/gapi/client/cache.login"

def invalidConfig : SdkError := ⟨.invalidConfig, none⟩

/-! ### Clients -/

/-- `AppKey`, with what `new` checks. -/
structure AppKey where
  value : Bytes
  valid : value ≠ [] ∧ value.length ≤ 4096

structure SdkHttpConfig where
  baseUrl : String
  allowedBaseUrls : List String

structure SdkHttpOptions where
  timeout : ℕ
  minimumInterval : ℕ

structure SdkHeaders where
  traceId : Option String
  oneSdkVersion : Option String

/-- `normalize_base`. -/
def normalizeBase (lib : Libraries) (value : String) : Except SdkError String :=
  match lib.parseUrl value with
  | none => .error invalidConfig
  | some url =>
    if url.scheme ≠ "https" ∨ url.host = none ∨ url.username ≠ "" ∨ url.password ≠ none ∨
        url.query ≠ none ∨ url.fragment ≠ none ∨ url.path ∉ ["/", "/passport", "/passport/"] then
      .error invalidConfig
    else .ok (url.asciiOrigin ++ String.ofList (url.path.toList.rdropWhile (· = '/')))

/-- 120 seconds. -/
def maxDuration : ℕ := 120 * 10 ^ 9

/-- `SdkHttpClient`, with what `new` checks. -/
structure SdkHttpClient (lib : Libraries) where
  baseUrl : String
  allowedBaseUrls : List String
  parameters : CommonParameters
  key : AppKey
  headers : SdkHeaders
  options : SdkHttpOptions
  binding : ℕ
  approved : ∃ v ∈ allowedBaseUrls, (normalizeBase lib v).toOption = some baseUrl
  timeout : options.timeout ≠ 0 ∧ options.timeout ≤ maxDuration ∧
    options.minimumInterval ≤ maxDuration

variable {K : Type} {lib : Libraries}

namespace SdkHttpClient

/-- `new`, which draws the `binding`; the HTTP library can be set up. -/
def new (lib : Libraries) (codecs : SdkCodecs K) (config : SdkHttpConfig)
    (parameters : CommonParameters) (key : AppKey) (headers : SdkHeaders) (options : SdkHttpOptions)
    (binding : ℕ) : Except SdkError (SdkHttpClient lib) := do
  let base ← normalizeBase lib config.baseUrl
  if approved : (∃ v ∈ config.allowedBaseUrls, (normalizeBase lib v).toOption = some base) ∧
      options.timeout ≠ 0 ∧ options.timeout ≤ maxDuration ∧
      options.minimumInterval ≤ maxDuration then
    .refuse ([headers.traceId, headers.oneSdkVersion].any fun value =>
      value.any fun v => 1024 < (utf8 v).length ∨ codecs.headerValue v = false) invalidConfig
    return ⟨base, config.allowedBaseUrls, parameters, key, headers, options, binding, approved.1,
      approved.2⟩
  else .error invalidConfig

end SdkHttpClient

/-! ### Calls -/

structure PasswordLogin where
  userId : Bytes
  password : Bytes
  accountType : PasswordAccountType
  ticket : Option Bytes
  thirdPaymentVoucher : Option Bytes

structure CacheLogin where
  accessKey : Bytes
  ticket : Option Bytes
  thirdPaymentVoucher : Option Bytes
  currentUser : Option CurrentSdkUser

inductive SdkCall
  | fetchRsa (currentUser : Option CurrentSdkUser)
  | passwordLogin (challenge : RsaChallenge) (login : PasswordLogin)
      (currentUser : Option CurrentSdkUser)
  | cacheLogin (login : CacheLogin)

/-- The arguments of `send`. -/
structure SdkRequest where
  path : String
  fields : List (String × Bytes)
  alreadyEncoded : Bool
  currentUser : Option CurrentSdkUser

/-- A POST on the wire. -/
structure HttpPost where
  url : String
  headers : List (String × String)
  body : Bytes

/-- What a call has got. -/
inductive SdkValue
  | challenge (challenge : RsaChallenge)
  | login (user : PendingSdkLogin)

def SdkReply.map {S T : Type} (f : S → T) : SdkReply S → SdkReply T
  | .success value => .success (f value)
  | .rejected rejection => .rejected rejection

abbrev SdkResult := Except SdkError (SdkReply SdkValue)

namespace SdkHttpClient

variable (codecs : SdkCodecs K) (c : SdkHttpClient lib)

/-- A call up to `send`; `cancelled` says whether it has been cancelled before. -/
def request (cancelled : Bool) (seed : ℕ) : SdkCall → Except SdkError SdkRequest
  | .fetchRsa currentUser => .ok ⟨RSA_PATH, [], true, currentUser⟩
  | .passwordLogin challenge login currentUser => do
    .refuse cancelled ⟨.cancelled, none⟩
    .refuse (challenge.binding ≠ c.binding) invalid
    validateSecret login.userId 1024
    validateSecret login.password 4096
    let encrypted ← encryptPassword codecs seed challenge login.password
    let fields ← passwordFields login.userId login.password encrypted login.accountType login.ticket
      login.thirdPaymentVoucher
    return ⟨PASSWORD_PATH, fields, false, currentUser⟩
  | .cacheLogin login => do
    let fields ← cacheFields login.accessKey login.ticket login.thirdPaymentVoucher
    return ⟨CACHE_PATH, fields, true, login.currentUser⟩

/-- The telemetry headers, which are left out if they are empty. -/
def telemetry : List (String × String) :=
  [("X-Game-Trace-Id", c.headers.traceId), ("one-sdk-ver", c.headers.oneSdkVersion)].filterMap
    fun header => (header.2.filter fun v => v ≠ "").map fun v => (header.1, v)

/-- The headers of a request, apart from its random identifier. -/
def requestHeaders : List (String × String) :=
  [("User-Agent", "Mozilla/5.0 BSGameSDK"), ("Api-Version", "1"),
    ("Content-Type", "application/x-www-form-urlencoded")] ++ c.telemetry

/-- `send` up to the request; `ms` is the time since the epoch, if there is one. -/
def post (request : SdkRequest) (ms : Option ℕ) : Except SdkError HttpPost := do
  let some ms := ms.filter fun ms => ms < 2 ^ 64
    | .error invalid
  let body ← form codecs.md5 c.parameters c.key.value request.fields request.alreadyEncoded
    request.currentUser ms
  .refuse (c.telemetry.any fun header => codecs.headerValue header.2 = false) invalid
  return ⟨c.baseUrl ++ request.path, c.requestHeaders, body⟩

/-- What a call makes of its body. -/
def reply (bytes : Bytes) : SdkCall → SdkResult
  | .fetchRsa _ => (rsa codecs bytes c.binding).map (SdkReply.map .challenge)
  | .passwordLogin _ _ _ => (login codecs bytes none).map (SdkReply.map .login)
  | .cacheLogin call => (login codecs bytes (some call.accessKey)).map (SdkReply.map .login)

end SdkHttpClient

/-! ### What is posted, and what is got -/

/-- The path of a call. -/
def SdkCall.path : SdkCall → String
  | .fetchRsa _ => RSA_PATH
  | .passwordLogin _ _ _ => PASSWORD_PATH
  | .cacheLogin _ => CACHE_PATH

namespace SdkHttpClient

variable {codecs : SdkCodecs K} {c : SdkHttpClient lib} {call : SdkCall}

theorem request_path {cancelled : Bool} {seed : ℕ} {request : SdkRequest}
    (h : c.request codecs cancelled seed call = .ok request) : request.path = call.path := by
  cases call with
  | fetchRsa currentUser =>
    cases h
    rfl
  | passwordLogin challenge login currentUser =>
    simp only [SdkHttpClient.request, Except.bind_eq_ok, Except.pure_eq_ok] at h
    obtain ⟨-, -, -, -, -, -, -, -, encrypted, -, fields, -, rfl⟩ := h
    rfl
  | cacheLogin login =>
    simp only [SdkHttpClient.request, Except.bind_eq_ok, Except.pure_eq_ok] at h
    obtain ⟨fields, -, rfl⟩ := h
    rfl

theorem post_url {request : SdkRequest} {ms : Option ℕ} {post : HttpPost}
    (h : c.post codecs request ms = .ok post) : post.url = c.baseUrl ++ request.path := by
  unfold SdkHttpClient.post at h
  split at h
  · simp only [Except.bind_eq_ok, Except.pure_eq_ok] at h
    obtain ⟨body, -, -, -, rfl⟩ := h
    rfl
  · cases h

/-- What a call can get. -/
structure Gives (codecs : SdkCodecs K) (c : SdkHttpClient lib) (call : SdkCall) (value : SdkValue) :
    Prop where
  challenge : ∀ challenge, value = .challenge challenge →
    (∃ currentUser, call = .fetchRsa currentUser) ∧ challenge.binding = c.binding ∧
      ChallengeValid codecs challenge
  login : ∀ user, value = .login user → LoginValid user ∧
    ∀ login, call = .cacheLogin login → user.accessKey = some login.accessKey

theorem map_eq_success {S T : Type} {f : S → T} {result : Except SdkError (SdkReply S)} {value : T}
    (h : result.map (SdkReply.map f) = .ok (.success value)) :
    ∃ v, result = .ok (.success v) ∧ f v = value := by
  obtain _ | _ | _ := result
  · cases h
  · cases h
    exact ⟨_, rfl, rfl⟩
  · cases h

theorem gives_of_reply {bytes : Bytes} {value : SdkValue}
    (h : c.reply codecs bytes call = .ok (.success value)) : c.Gives codecs call value := by
  cases call with
  | fetchRsa currentUser =>
    obtain ⟨challenge, hchallenge, rfl⟩ := map_eq_success h
    refine ⟨?_, by simp⟩
    rintro _ ⟨⟩
    exact ⟨⟨currentUser, rfl⟩, rsa_success hchallenge⟩
  | passwordLogin challenge login currentUser =>
    obtain ⟨user, huser, rfl⟩ := map_eq_success h
    refine ⟨by simp, ?_⟩
    rintro _ ⟨⟩
    exact ⟨(login_success huser).1, by simp⟩
  | cacheLogin login =>
    obtain ⟨user, huser, rfl⟩ := map_eq_success h
    refine ⟨by simp, ?_⟩
    rintro _ ⟨⟩
    refine ⟨(login_success huser).1, ?_⟩
    rintro _ ⟨⟩
    exact (login_success huser).2 _ rfl

end SdkHttpClient

end MoenotesApi.SdkHttp
