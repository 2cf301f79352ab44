import MoenotesApi.Client.Operation
import Mathlib.Logic.Function.Basic

/-!
# The client as a state machine

`Client` and its operations (`lib.rs`, `auth.rs`, `jp.rs`, `versions.rs`) as a partial step function.
An operation is a sequence of events, cut where other tasks can come in between: at every await and
at every acquisition of the session lock.

* `submit`: `session_for`, the local checks and the call metadata; `acquire`: `try_acquire`;
* `enter`: the serial slot is taken and the block is checked; `start`: pacing is over and the
  transport is called; `answer`: its result is processed up to the recorded block;
* `check`: the checks after an answer; `finish`: the closure, with its critical section;
* `abort` and `drop`: the operation ends at one of its awaits; `take`: the caller takes the result;
* `importCredentials`, `replaceSession`: the two installations without a call.

`Client.step lib opt c e` is the state after `e`, if `e` can happen in `c`.  A block is recorded
together with the mismatch flag: both are written under the guard of `blocked`, and the only other
reader of the flag, `discover_versions`, reads it inside the serial slot.
-/

namespace MoenotesApi

/-- `ClientOptions`; the timeout itself is not modelled, an operation may time out at any await. -/
structure ClientOptions where
  minimumInterval : ℕ
  queueCapacity : ℕ
  deriving DecidableEq, Repr

/-- The state of a `Client`.  `arena g` is the session of generation `g`, for every `g` up to
`current`; operations keep the sessions they have captured alive. -/
structure Client (ι : Type) where
  current : ℕ
  arena : ℕ → Session
  serial : Option ι
  next : ℕ
  now : ℕ
  available : ℕ
  ops : ι → Option OpState

/-- Whether the files that `register_jp` creates could be created. -/
structure RegisterFiles where
  response : Bool
  credentials : Bool
  deriving DecidableEq, Repr

/-- Stages in which an operation waits: it can be cancelled, dropped or timed out there. -/
def Stage.awaits : Stage → Bool
  | .queued | .slot | .calling _ => true
  | _ => false

/-- Stages in which an operation holds the serial slot. -/
def Stage.holdsSlot : Stage → Bool
  | .slot | .calling _ | .answered _ | .checked _ => true
  | _ => false

/-- Stages before the transport is called. -/
def Stage.unsent : Stage → Bool
  | .prepared | .queued | .slot => true
  | _ => false

/-- Stages between the block check and the answer. -/
def Stage.admitted : Stage → Bool
  | .slot | .calling _ => true
  | _ => false

namespace Client

/-- What can happen to a client whose operations are named by `ι`. -/
inductive Event (ι : Type)
  | submit (i : ι) (request : Request) (requestId : String)
  | acquire (i : ι)
  | enter (i : ι)
  | start (i : ι)
  | answer (i : ι) (result : Except ClientError TransportResponse)
  | check (i : ι)
  | finish (i : ι) (files : RegisterFiles)
  | abort (i : ι) (kind : ErrorKind)
  | drop (i : ι)
  | take (i : ι)
  | cancel (i : ι)
  | importCredentials (generation : ℕ) (provider : StaticCredentials)
  | replaceSession (config : SessionConfig) (provider : Option StaticCredentials)
  | advance (duration : ℕ)

variable {ι : Type}

/-- A client with its first session. -/
def initial (opt : ClientOptions) (session : Session) (now : ℕ) : Client ι where
  current := 0
  arena := fun _ => session
  serial := none
  next := now
  now := now
  available := opt.queueCapacity + 1
  ops := fun _ => none

/-- `Client::with_transport`, after its checks of the options. -/
def withTransport (lib : Libraries) (opt : ClientOptions) (config : SessionConfig)
    (provider : Option StaticCredentials) (transport : Transport) (now : ℕ) :
    Except ClientError (Client ι) := do
  let session ← makeSession lib config provider transport
  return initial opt session now

/-- `self.session.read()`. -/
def session (c : Client ι) : Session := c.arena c.current

/-! ### Local functions -/

/-- `Client::session_config`. -/
def sessionConfig (c : Client ι) : SessionConfig := c.session.config

/-- `QueryClient::query_error` of the client. -/
def queryError (c : Client ι) (anonymous : Bool) : Option ClientError :=
  if anonymous then none
  else
    match c.session.blocked with
    | some kind => some (.new kind)
    | none => if c.session.credentials = none then some (.new .authenticationRequired) else none

/-- The local checks of a public function that come before `session_for`. -/
def checkRequest : Request → Except ClientError Unit
  | .execute _ query => query.validate
  | .version _ candidate =>
    .refuse (candidate.any fun v => (patchVersion v).isNone) (.new .invalidRequest)
  | _ => .ok ()

/-- `session_for`, between the local checks of the public functions, and the call metadata. -/
def prepare (lib : Libraries) (c : Client ι) (requestId : String) (request : Request) :
    Except ClientError Op := do
  checkRequest request
  .refuse (request.generation ≠ c.current) (.new .sessionChanged)
  let config := c.session.config
  match request with
  | .execute g query =>
    .refuse (query.method.anonymous = false ∧ c.session.credentials = none)
      (.new .authenticationRequired)
    let method ← query.methodForRegion config.region
    let metadata ← config.metadata lib c.session.credentials requestId method.anonymous
    return ⟨g, method, metadata, .query, false, .prepared⟩
  | .selfData g =>
    .refuse (config.region ≠ "jp" ∨ c.session.credentials = none) (.new .authenticationRequired)
    let metadata ← config.metadata lib c.session.credentials requestId false
    return ⟨g, selfDataMethod, metadata, .selfData, false, .prepared⟩
  | .preLogin g sdk context =>
    let metadata ← buildRequest lib config sdk context preLoginMethod requestId
    return ⟨g, preLoginMethod, metadata, .preLogin, false, .prepared⟩
  | .login g sdk context =>
    let metadata ← buildRequest lib config sdk context loginMethod requestId
    return ⟨g, loginMethod, metadata, .login sdk.callback.uid, false, .prepared⟩
  | .register g outputsFree =>
    .refuse (config.region ≠ "jp" ∨ c.session.credentials.isSome) badConfig
    .refuse (outputsFree = false) badConfig
    let metadata ← config.metadata lib none requestId true
    return ⟨g, registerMethod, metadata, .register, false, .prepared⟩
  | .version g candidate =>
    let presented := { config with clientVersion := candidate.getD config.clientVersion }
    let method ← versionQuery.methodForRegion presented.region
    let metadata ← presented.metadata lib none requestId true
    return ⟨g, method, metadata, .version presented, false, .prepared⟩

/-- The block that keeps a call of `method` out of the serial slot. -/
def gate (session : Session) (method : Method) : Option ErrorKind :=
  match session.blocked with
  | none => none
  | some kind =>
    if !method.anonymous || ((isLoginMethod method || method = registerMethod) &&
        (kind = .version || kind = .deviceConflict)) then some kind
    else none

/-- A `Version` or `DeviceConflict` block, which no later error replaces. -/
def strong (blocked : Option ErrorKind) : Bool :=
  blocked = some .version || blocked = some .deviceConflict

/-- The kinds of rejection that block a session. -/
def rejection (kind : ErrorKind) : Bool :=
  kind = .authentication || kind = .version || kind = .deviceConflict

/-- Whether an error of a call of `method` is recorded in `session`. -/
def recorded (session : Session) (method : Method) (error : ClientError) : Bool :=
  (!method.anonymous || isLoginMethod method) && rejection error.kind && !strong session.blocked

/-- Recording a rejection: the mismatch flag and the block. -/
def record (session : Session) (method : Method) (error : ClientError) : Session :=
  if recorded session method error then
    { session with
      masterMismatch := error.masterVersionMismatch
      blocked := some error.kind }
  else session

/-- `override_sent`: whether a call of `method` carries the override header. -/
def overrides (session : Session) (method : Method) : Bool :=
  session.config.region = "jp" && !method.anonymous && session.jpOverridePending

/-- An operation whose transport call begins: its metadata is now complete. -/
def called (session : Session) (op : Op) : Op :=
  { op with
    stage := .calling (overrides session op.method)
    metadata :=
      if overrides session op.method then op.metadata.put "x-override-device-id" "1"
      else op.metadata }

@[simp] theorem called_generation (session : Session) (op : Op) :
    (called session op).generation = op.generation := rfl
@[simp] theorem called_method (session : Session) (op : Op) :
    (called session op).method = op.method := rfl
@[simp] theorem called_stage (session : Session) (op : Op) :
    (called session op).stage = .calling (overrides session op.method) := rfl

/-- A successful call that carried the override header has used it up. -/
def clearOverride (session : Session) (overrideSent : Bool) : Session :=
  if overrideSent then { session with jpOverridePending := false } else session

/-- The session that `discover_versions` installs in place of `current`. -/
def discovered (current : Session) (presented : SessionConfig) (master : String)
    (resource : Option String) : Session where
  config := { current.config with
    clientVersion := presented.clientVersion
    masterVersion := some master
    resourceVersion := resource }
  credentials := current.credentials
  transport := current.transport
  cancelled := false
  blocked :=
    if current.blocked = some .version ∧
        (current.config.clientVersion ≠ presented.clientVersion ∨ current.masterMismatch) then none
    else current.blocked
  masterMismatch := false
  jpOverridePending := current.jpOverridePending

/-! ### The closures `finish` -/

/-- The credentials that `login_with_sdk` makes of a response. -/
def loginCredentials (uid id credential : String) : Credentials := ⟨id, credential, none, some uid⟩

/-- The closure of `login_with_sdk`. -/
def finishLogin (lib : Libraries) (c : Client ι) (op : Op) (uid : String) :
    Message → Except ClientError (Outcome × Option Session)
  | .login (some (id, credential)) isNewUser =>
    let session := c.arena op.generation
    let credentials := loginCredentials uid id credential
    match session.config.metadata lib (some credentials) "validation" false with
    | .error _ => .error (.new .protocol)
    | .ok _ =>
      if c.current ≠ op.generation then .error (.new .sessionChanged)
      else if op.cancelled then .error (.new .cancelled)
      else .ok (.receipt (c.current + 1) isNewUser,
        some (.fresh session.config (some credentials) session.transport))
  | _ => .error (.new .protocol)

/-- The credentials that `register_jp` makes of a response. -/
def registerCredentials (id credential deviceId : String) : Credentials :=
  ⟨id, credential, if deviceId = "" then none else some deviceId, none⟩

/-- The closure of `register_jp`. -/
def finishRegister (lib : Libraries) (c : Client ι) (op : Op) (files : RegisterFiles)
    (message : Message) : Except ClientError (Outcome × Option Session) :=
  if files.response = false then .error badConfig
  else
    match message with
    | .register id credential deviceId =>
      let session := c.arena op.generation
      let credentials := registerCredentials id credential deviceId
      match session.config.metadata lib (some credentials) "validation" false with
      | .error e => .error e
      | .ok _ =>
        if files.credentials = false then .error badConfig
        else if c.current ≠ op.generation then .error (.new .sessionChanged)
        else .ok (.registered, some (.registered session.config credentials session.transport))
    | _ => .error (.new .protocol)

/-- Whether the session that `op` has captured is one of the JP region. -/
def capturedJp (c : Client ι) (op : Op) : Bool := (c.arena op.generation).config.region = "jp"

/-- The resource version of an answer to `discover_versions`; `answered` is that of its message. -/
def answeredResource (lib : Libraries) (c : Client ι) (op : Op) (presented : SessionConfig)
    (response : TransportResponse) (answered : String) : Option String :=
  if capturedJp c op then
    assetVersion lib.parseAssets response.assetVersion presented.clientVersion
  else some answered

/-- The versions of an answer to `discover_versions` have the form of the region. -/
def validAnswer (c : Client ι) (op : Op) (master answered : String) : Bool :=
  (if capturedJp c op then validMaster master else valid master) &&
    (capturedJp c op || valid answered)

/-- The session already has the versions of an answer. -/
def SameVersions (current : Session) (presented : SessionConfig) (master : String)
    (resource : Option String) : Prop :=
  current.config.masterVersion = some master ∧ current.config.resourceVersion = resource ∧
    current.config.clientVersion = presented.clientVersion

instance (current : Session) (presented : SessionConfig) (master : String)
    (resource : Option String) : Decidable (SameVersions current presented master resource) :=
  inferInstanceAs (Decidable (_ ∧ _ ∧ _))

/-- The closure of `discover_versions`. -/
def finishVersion (lib : Libraries) (c : Client ι) (op : Op) (presented : SessionConfig)
    (response : TransportResponse) : Except ClientError (Outcome × Option Session) :=
  match response.message with
  | .version master answered =>
    let resource := answeredResource lib c op presented response answered
    if validAnswer c op master answered = false then .error (.new .protocol)
    else if c.current ≠ op.generation then .error (.new .sessionChanged)
    else if op.cancelled then .error (.new .cancelled)
    else if SameVersions c.session presented master resource then .ok (.versions false, none)
    else .ok (.versions true, some (discovered c.session presented master resource))
  | _ => .error (.new .protocol)

/-- The closure of an operation: its outcome, and the session it installs. -/
def conclude (lib : Libraries) (c : Client ι) (op : Op) (response : TransportResponse)
    (files : RegisterFiles) : Except ClientError (Outcome × Option Session) :=
  match op.call with
  | .query => .ok (.response response.message op.generation, none)
  | .selfData => .ok (.selfData response.message, none)
  | .preLogin =>
    match response.message with
    | .preLogin created => .ok (.roleExists created, none)
    | _ => .error (.new .protocol)
  | .login uid => finishLogin lib c op uid response.message
  | .register => finishRegister lib c op files response.message
  | .version presented => finishVersion lib c op presented response

/-! ### State updates -/

/-- The checks between an answer and the closure. -/
def refusal (c : Client ι) (op : Op) (response : TransportResponse) : Option ErrorKind :=
  if op.cancelled then some .cancelled
  else if c.current ≠ op.generation then some .sessionChanged
  else if response.message.descriptor ≠ op.method.output then some .protocol
  else none

def setSession (c : Client ι) (g : ℕ) (session : Session) : Client ι :=
  { c with arena := Function.update c.arena g session }

/-- The current session is cancelled and `new` takes its place under a new generation. -/
def install (c : Client ι) (new : Session) : Client ι :=
  { c with
    current := c.current + 1
    arena := Function.update
      (Function.update c.arena c.current { c.session with cancelled := true }) (c.current + 1) new }

section Sessions

variable (c : Client ι) (g : ℕ) (s : Session)

@[simp] theorem setSession_current : (c.setSession g s).current = c.current := rfl
@[simp] theorem setSession_arena : (c.setSession g s).arena = Function.update c.arena g s := rfl
@[simp] theorem setSession_serial : (c.setSession g s).serial = c.serial := rfl
@[simp] theorem setSession_now : (c.setSession g s).now = c.now := rfl
@[simp] theorem setSession_ops : (c.setSession g s).ops = c.ops := rfl
@[simp] theorem install_current : (c.install s).current = c.current + 1 := rfl
@[simp] theorem install_serial : (c.install s).serial = c.serial := rfl
@[simp] theorem install_now : (c.install s).now = c.now := rfl
@[simp] theorem install_ops : (c.install s).ops = c.ops := rfl

@[simp] theorem install_session : (c.install s).session = s := by simp [session, install]

/-- The session of an older generation, after an installation: only its token can have fired. -/
theorem install_arena_of_le {g : ℕ} (hg : g ≤ c.current) :
    (c.install s).arena g = c.arena g ∨
      (c.install s).arena g = { c.arena g with cancelled := true } := by
  rcases Nat.eq_or_lt_of_le hg with rfl | hlt
  · right
    simp [install, session]
  · left
    have hnew : g ≠ c.current + 1 := by omega
    simp [install, hnew, Nat.ne_of_lt hlt]

end Sessions

variable [DecidableEq ι]

def setOp (c : Client ι) (i : ι) (op : OpState) : Client ι :=
  { c with ops := Function.update c.ops i (some op) }

/-- The operation `i` is over: it gives back the serial slot and its permit. -/
def release (c : Client ι) (i : ι) : Client ι :=
  { c with
    serial := if c.serial = some i then none else c.serial
    available := c.available + 1 }

/-- The admitted operation `i` returns. -/
def complete (c : Client ι) (i : ι) (result : Except ClientError Outcome) : Client ι :=
  (c.release i).setOp i (.done result)

section Operations

variable (c : Client ι) (i : ι) (op : OpState) (result : Except ClientError Outcome)

@[simp] theorem setOp_session : (c.setOp i op).session = c.session := rfl
@[simp] theorem complete_session : (c.complete i result).session = c.session := rfl
@[simp] theorem setOp_current : (c.setOp i op).current = c.current := rfl
@[simp] theorem setOp_arena : (c.setOp i op).arena = c.arena := rfl
@[simp] theorem setOp_serial : (c.setOp i op).serial = c.serial := rfl
@[simp] theorem setOp_now : (c.setOp i op).now = c.now := rfl
@[simp] theorem setOp_ops : (c.setOp i op).ops = Function.update c.ops i (some op) := rfl
@[simp] theorem release_current : (c.release i).current = c.current := rfl
@[simp] theorem release_arena : (c.release i).arena = c.arena := rfl
@[simp] theorem release_now : (c.release i).now = c.now := rfl
@[simp] theorem release_ops : (c.release i).ops = c.ops := rfl
@[simp] theorem release_serial :
    (c.release i).serial = if c.serial = some i then none else c.serial := rfl
@[simp] theorem complete_current : (c.complete i result).current = c.current := rfl
@[simp] theorem complete_arena : (c.complete i result).arena = c.arena := rfl
@[simp] theorem complete_now : (c.complete i result).now = c.now := rfl
@[simp] theorem complete_ops :
    (c.complete i result).ops = Function.update c.ops i (some (.done result)) := rfl
@[simp] theorem complete_serial :
    (c.complete i result).serial = if c.serial = some i then none else c.serial := rfl

end Operations

/-- `Client::import_credentials`. -/
def importCredentials (lib : Libraries) (c : Client ι) (generation : ℕ)
    (provider : StaticCredentials) : Except ClientError (Client ι) := do
  .refuse (c.current ≠ generation) (.new .sessionChanged)
  let new ← makeSession lib c.session.config (some provider) c.session.transport
  return c.install new

/-- `Client::replace_session`. -/
def replaceSession (lib : Libraries) (c : Client ι) (config : SessionConfig)
    (provider : Option StaticCredentials) : Except ClientError (Client ι) := do
  let transport ← grpcTransport lib config
  let new ← makeSession lib config provider transport
  return c.install new

/-! ### The step function -/

/-- The operation `i`, while it is under way. -/
def running (c : Client ι) (i : ι) : Option Op :=
  match c.ops i with
  | some (.running op) => some op
  | _ => none

/-- One event of an operation under way. -/
def stepOp (lib : Libraries) (opt : ClientOptions) (c : Client ι) (i : ι) (op : Op) :
    Event ι → Option (Client ι)
  | .acquire _ =>
    match op.stage with
    | .prepared =>
      if c.available = 0 then some (c.setOp i (.done (.error (.new .queueFull))))
      else some { c.setOp i (.running { op with stage := .queued }) with
        available := c.available - 1 }
    | _ => none
  | .enter _ =>
    match op.stage with
    | .queued =>
      if c.serial = none then
        match gate (c.arena op.generation) op.method with
        | some kind => some (c.complete i (.error (.new kind)))
        | none => some { c.setOp i (.running { op with stage := .slot }) with serial := some i }
      else none
    | _ => none
  | .start _ =>
    match op.stage with
    | .slot =>
      if c.next ≤ c.now then
        some { c.setOp i (.running (called (c.arena op.generation) op)) with
          next := c.now + opt.minimumInterval }
      else none
    | _ => none
  | .answer _ result =>
    match op.stage with
    | .calling overrideSent =>
      let session := c.arena op.generation
      match result with
      | .error e =>
        some ((c.setSession op.generation (record session op.method e)).complete i (.error e))
      | .ok response =>
        some ((c.setSession op.generation (clearOverride session overrideSent)).setOp i
          (.running { op with stage := .answered response }))
    | _ => none
  | .check _ =>
    match op.stage with
    | .answered response =>
      match refusal c op response with
      | some kind => some (c.complete i (.error (.new kind)))
      | none => some (c.setOp i (.running { op with stage := .checked response }))
    | _ => none
  | .finish _ files =>
    match op.stage with
    | .checked response =>
      match conclude lib c op response files with
      | .error e => some (c.complete i (.error e))
      | .ok (outcome, none) => some (c.complete i (.ok outcome))
      | .ok (outcome, some new) => some ((c.install new).complete i (.ok outcome))
    | _ => none
  | .abort _ kind =>
    if op.stage.awaits ∧ ((kind = .cancelled ∧ op.cancelled) ∨
        (kind = .sessionChanged ∧ (c.arena op.generation).cancelled) ∨ kind = .timeout) then
      some (c.complete i (.error (.new kind)))
    else none
  | .drop _ =>
    if op.stage.awaits then
      some { c.release i with ops := Function.update c.ops i none }
    else none
  | .cancel _ => some (c.setOp i (.running { op with cancelled := true }))
  | _ => none

/-- The operation that an event belongs to. -/
def Event.op : Event ι → Option ι
  | .acquire i | .enter i | .start i | .answer i _ | .check i | .finish i _ | .abort i _ | .drop i
  | .cancel i => some i
  | _ => none

/-- One event. -/
def step (lib : Libraries) (opt : ClientOptions) (c : Client ι) : Event ι → Option (Client ι)
  | .submit i request requestId =>
    match c.ops i with
    | some _ => none
    | none =>
      match prepare lib c requestId request with
      | .error e => some (c.setOp i (.done (.error e)))
      | .ok op => some (c.setOp i (.running op))
  | .take i =>
    match c.ops i with
    | some (.done _) => some { c with ops := Function.update c.ops i none }
    | _ => none
  | .importCredentials g provider =>
    match importCredentials lib c g provider with
    | .error _ => some c
    | .ok c' => some c'
  | .replaceSession config provider =>
    match replaceSession lib c config provider with
    | .error _ => some c
    | .ok c' => some c'
  | .advance duration => some { c with now := c.now + duration }
  | e =>
    match e.op with
    | none => none
    | some i =>
      match c.running i with
      | none => none
      | some op => stepOp lib opt c i op e

/-! ### A sample client -/

def sampleOptions : ClientOptions := ⟨1, 4⟩

def sampleClient : Client ℕ :=
  initial sampleOptions (.fresh sampleConfig (some sampleCredentials) sampleTransport) 0

/-- The steps of the sample client. -/
abbrev sampleStep : Client ℕ → Event ℕ → Option (Client ℕ) := step sampleLibraries sampleOptions

/-- The operation `i` from its submission to the start of its call. -/
def callEvents (i : ℕ) (request : Request) : List (Event ℕ) :=
  [.submit i request "request", .acquire i, .enter i, .start i]

end Client

end MoenotesApi
