import MoenotesApi.Operator.Recovery
import MoenotesApi.Operator.Scope

/-!
# Logging in with an account file

`AccountDirectoryClient::recover` (`accounts.rs`) as a state machine next to the client and the state
directories of all accounts, over whole sequences of calls.  A call is cut at every read of the session,
at its awaits and at every system call; in between, the client may do anything else that it does in
the server.

* `ScopedStage`, `ScopedEvent`, `AccountDirectoryClient.scopedStep`: a call in its state directory;
* `AccountStage`, `AccountEvent`, `AccountDirectoryClient.step`: the selection of the account, the calls
  one after the other, `reload` of the runtime, and a restart of the server, which finds the
  directories as they were left;
* `Ledger`: what a run has done so far, and for whom.

In the server, only these calls log in or install credentials: the client of an account directory starts
without any (`Runtime::new`), and `Runtime::reload` installs none.  What `select` finds, what
`LoginConfig::validate` and `context` return and what the SDK server answers are arbitrary.
-/

namespace MoenotesApi

open JsonText Files

/-- `initial-sdk.json`. -/
def initialSdk : String := "initial-sdk.json"

/-- The fields of `AccountDirectoryClient` that do not change, with the hash function and the parser of
account files. -/
structure AccountDirectoryClient where
  accounts : AccountsConfig
  allowCreate : Bool
  sdkReady : Bool
  session : SessionConfig
  sha256 : List UInt8 → List UInt8
  parse : List UInt8 → Option Account

/-- `Client::session_status` is `AuthenticationRejected`. -/
def Client.authenticationRejected {ι : Type} (c : Client ι) : Bool :=
  c.session.blocked = some .authentication

/-- `Client::session_status` is `Anonymous`. -/
def Client.anonymous {ι : Type} (c : Client ι) : Bool :=
  c.session.blocked ≠ some .authentication && c.session.blocked ≠ some .version &&
    c.session.blocked ≠ some .deviceConflict && c.session.credentials.isNone

/-! ### A call in its state directory -/

/-- How far a call of `recover` has come, from its return from `scoped_login` on. -/
inductive ScopedStage
  | entered
  | delegated (stage : RecoveryStage)
  | unrejected
  | anonymous
  | locked
  | found (saved : StaticCredentials)
  | loading (saved : StaticCredentials)
  | replacing (saved : StaticCredentials) (config : SessionConfig)
  | ready
  | validated
  | missing
  | requesting
  | answered (sdk : SdkAuthorization)
  | writing (sdk : SdkAuthorization) (w : Writing Char)
  | authorized (sdk : SdkAuthorization)
  | described (sdk : SdkAuthorization) (context : AndroidLoginContext)
  | probing (sdk : SdkAuthorization) (context : AndroidLoginContext)
  | probed (sdk : SdkAuthorization) (context : AndroidLoginContext)
  | loggingIn (sdk : SdkAuthorization)
  | loggedIn (sdk : SdkAuthorization)
  | received (sdk : SdkAuthorization)
  | persisting (call : PersistCall) (stage : PersistStage)
  | returned (result : Except ClientError Unit)
  | dropped

/-- A step of the call; `unread` is a `symlink_metadata` that fails. -/
inductive ScopedEvent (ι : Type)
  | proceed
  | isCancelled (cancelled : Bool)
  | delegated (e : RecoveryEvent ι)
  | lock (outcome : LockOutcome)
  | validate (result : Except ClientError Unit)
  | unread
  | request
  | answer (result : Except ClientError SdkAuthorization)
  | context (result : Except ClientError AndroidLoginContext)
  | submit (requestId : String)
  | take
  | persist (id : Uuid)
  | disk (a : Action Char)
  | drop

/-- The client, the state directory of the account and the call. -/
structure ScopedState (ι : Type) where
  client : Client ι
  directory : StateDir
  stage : ScopedStage

/-- The job of `save_to_file`. -/
def SdkAuthorization.job (sdk : SdkAuthorization) : Job Char := ⟨initialSdk, sdk.json, false⟩

namespace ScopedState

variable {ι : Type} (s : ScopedState ι)

/-- A step that leaves the client and the directory as they are. -/
def goto (stage : ScopedStage) : ScopedState ι := { s with stage := stage }

/-- The call returns an error. -/
def fail (e : ClientError) : ScopedState ι := s.goto (.returned (.error e))

/-- The call goes on unless it has been cancelled. -/
def uncancelled (cancelled : Bool) (stage : ScopedStage) : ScopedState ι :=
  if cancelled then s.fail (.new .cancelled) else s.goto stage

/-- The stage after a step of `GameRecovery::recover`. -/
def afterRecovery : RecoveryStage → ScopedStage
  | .returned result => .returned result
  | .dropped => .dropped
  | stage => .delegated stage

/-- The stage after a step of `persist`. -/
def afterSave (call : PersistCall) : PersistProgress → ScopedStage
  | .running stage => .persisting call stage
  | .returned result => .returned result

/-- A step of `persist`. -/
def save (call : PersistCall) (stage : PersistStage) (a : PersistAction ι) :
    Option (ScopedState ι) :=
  match persistStep call s.directory stage a with
  | none => none
  | some (d, p) => some ⟨s.client, d, afterSave call p⟩

/-- A step of `save_to_file`. -/
def saveSdk (sdk : SdkAuthorization) (w : Writing Char) (a : Action Char) : Option (ScopedState ι) :=
  match sdk.job.step s.directory w a with
  | none => none
  | some (d, .writing w) => some ⟨s.client, d, .writing sdk w⟩
  | some (d, .moved) => some ⟨s.client, d, .authorized sdk⟩
  | some (d, .failed) => some ⟨s.client, d, .returned (.error badConfig)⟩

end ScopedState

namespace AccountDirectoryClient

variable {ι : Type} (a : AccountDirectoryClient)

/-- The next computation of the call. -/
def proceed (lib : Libraries) (serde : Serde) (s : ScopedState ι) : Option (ScopedState ι) :=
  match s.stage with
  | .entered =>
    some (if s.client.authenticationRejected then s.goto (.delegated .entered)
      else s.goto .unrejected)
  | .unrejected =>
    some (if s.client.anonymous then s.goto .anonymous else s.fail (.new .sessionChanged))
  | .locked =>
    match LoginConfig.credentials serde s.directory a.session with
    | .error e => some (s.fail e)
    | .ok (some saved) => some (s.goto (.found saved))
    | .ok none =>
      some (if a.sdkReady then s.goto .ready else s.fail (.new .authenticationRequired))
  | .loading saved => some (s.goto (.replacing saved s.client.sessionConfig))
  | .replacing saved config =>
    match s.client.replaceSession lib config (some saved) with
    | .error e => some (s.fail e)
    | .ok c => some ⟨c, s.directory, .returned (.ok ())⟩
  | .validated =>
    match s.directory.entries initialSdk with
    | none => some (s.goto .missing)
    | some .other => some (s.fail badConfig)
    | some (.file _ _) =>
      match SdkAuthorization.fromFile serde lib s.directory a.session initialSdk with
      | .error e => some (s.fail e)
      | .ok sdk => some (s.goto (.authorized sdk))
  | .answered sdk =>
    match createChecks s.directory sdk.json with
    | .error e => some (s.fail e)
    | .ok _ => some (s.goto (.writing sdk .unopened))
  | .persisting call stage => s.save call stage (.proceed s.client)
  | _ => none

variable [DecidableEq ι]

/-- A step of the call that waits for `GameRecovery::recover`. -/
def delegate (lib : Libraries) (opt : ClientOptions) (serde : Serde) (r : GameRecovery ι)
    (s : ScopedState ι) : RecoveryEvent ι → Option (ScopedState ι)
  | .client _ => none
  | e =>
    match s.stage with
    | .delegated stage =>
      match r.step lib opt serde ⟨s.client, s.directory, stage⟩ e with
      | none => none
      | some ⟨c, d, stage⟩ => some ⟨c, d, ScopedState.afterRecovery stage⟩
    | _ => none

/-- The call submits one of its RPCs. -/
def submit (lib : Libraries) (opt : ClientOptions) (r : GameRecovery ι) (s : ScopedState ι)
    (requestId : String) : Option (ScopedState ι) :=
  match s.stage with
  | .described sdk context =>
    (s.client.step lib opt (.submit r.probe (.preLogin r.generation sdk context) requestId)).map
      fun c => ⟨c, s.directory, .probing sdk context⟩
  | .probed sdk context =>
    (s.client.step lib opt (.submit r.login (.login r.generation sdk context) requestId)).map
      fun c => ⟨c, s.directory, .loggingIn sdk⟩
  | _ => none

/-- The call takes the result of the RPC that it awaits. -/
def take (lib : Libraries) (opt : ClientOptions) (r : GameRecovery ι) (s : ScopedState ι) :
    Option (ScopedState ι) :=
  match s.stage with
  | .probing sdk context =>
    match s.client.ops r.probe, s.client.step lib opt (.take r.probe) with
    | some (.done (.ok (.roleExists exists_))), some c =>
      if !exists_ && !a.allowCreate then
        some ⟨c, s.directory, .returned (.error (.new .authenticationRequired))⟩
      else some ⟨c, s.directory, .probed sdk context⟩
    | some (.done (.error e)), some c => some ⟨c, s.directory, .returned (.error e)⟩
    | _, _ => none
  | .loggingIn sdk =>
    match s.client.ops r.login, s.client.step lib opt (.take r.login) with
    | some (.done (.ok _)), some c => some ⟨c, s.directory, .loggedIn sdk⟩
    | some (.done (.error e)), some c => some ⟨c, s.directory, .returned (.error e)⟩
    | _, _ => none
  | _ => none

/-- The call is dropped at one of its awaits. -/
def drop (lib : Libraries) (opt : ClientOptions) (r : GameRecovery ι) (s : ScopedState ι) :
    Option (ScopedState ι) :=
  match s.stage with
  | .requesting => some (s.goto .dropped)
  | .probing _ _ =>
    (s.client.step lib opt (.drop r.probe)).map fun c => ⟨c, s.directory, .dropped⟩
  | .loggingIn _ =>
    (s.client.step lib opt (.drop r.login)).map fun c => ⟨c, s.directory, .dropped⟩
  | _ => none

/-- A step of the call in its state directory. -/
def scopedStep (lib : Libraries) (opt : ClientOptions) (serde : Serde) (r : GameRecovery ι)
    (s : ScopedState ι) : ScopedEvent ι → Option (ScopedState ι)
  | .proceed => a.proceed lib serde s
  | .isCancelled cancelled =>
    match s.stage with
    | .found saved => some (s.uncancelled cancelled (.loading saved))
    | .loggedIn sdk => some (s.uncancelled cancelled (.received sdk))
    | _ => none
  | .delegated e => delegate lib opt serde r s e
  | .lock outcome =>
    match s.stage, LoginConfig.lock s.directory outcome with
    | .anonymous, (d, .error e) => some ⟨s.client, d, .returned (.error e)⟩
    | .anonymous, (d, .ok _) => some ⟨s.client, d, .locked⟩
    | _, _ => none
  | .validate result =>
    match s.stage, result with
    | .ready, .error e => some (s.fail e)
    | .ready, .ok _ => some (s.goto .validated)
    | _, _ => none
  | .unread =>
    match s.stage with
    | .validated => some (s.fail badConfig)
    | .persisting call stage => s.save call stage .unread
    | _ => none
  | .request =>
    match s.stage with
    | .missing => some (s.goto .requesting)
    | _ => none
  | .answer result =>
    match s.stage, result with
    | .requesting, .error _ => some (s.fail (.new .authentication))
    | .requesting, .ok sdk => some (s.goto (.answered sdk))
    | _, _ => none
  | .context result =>
    match s.stage, result with
    | .authorized _, .error e => some (s.fail e)
    | .authorized sdk, .ok context => some (s.goto (.described sdk context))
    | _, _ => none
  | .submit requestId => submit lib opt r s requestId
  | .take => a.take lib opt r s
  | .persist id =>
    match s.stage with
    | .received sdk =>
      match privateDir s.directory with
      | .error e => some (s.fail e)
      | .ok _ =>
        some (s.goto (.persisting ⟨0, a.session, sdk, id, s.client.current⟩ (.checking .sdk)))
    | _ => none
  | .disk action =>
    match s.stage with
    | .writing sdk w => s.saveSdk sdk w action
    | .persisting call stage => s.save call stage (.disk action)
    | _ => none
  | .drop => drop lib opt r s

end AccountDirectoryClient

/-! ### The ledger -/

/-- What a call has done to the world. -/
inductive AccountEffect
  | opened (dir : String)
  | requested (account : Account)
  | preLogin (sdk : SdkAuthorization)
  | login (sdk : SdkAuthorization)
  | loaded (dir : String) (saved : StaticCredentials)
  | wroteSdk (dir : String) (sdk : SdkAuthorization)
  | wrote (dir : String) (call : PersistCall) (file : PersistFile)

/-- The file that a step of `persist` has put under its name. -/
def PersistStage.wrote : PersistStage → PersistStage → Option PersistFile
  | .writing _ _, .writing _ _ => none
  | .writing file _, _ => some file
  | _, _ => none

/-- What a step of `GameRecovery::recover` has done. -/
def RecoveryStage.effects (dir : String) : RecoveryStage → RecoveryStage → List AccountEffect
  | .described _ sdk _, .probing _ _ _ => [.preLogin sdk]
  | .probed _ sdk _, .loggingIn _ _ => [.login sdk]
  | .saving _ call stage, .saving _ _ stage' => ((stage.wrote stage').map (.wrote dir call)).toList
  | _, _ => []

/-- What a step of a call has done. -/
def ScopedStage.effects (account : Account) (dir : String) :
    ScopedStage → ScopedStage → List AccountEffect
  | .missing, .requesting => [.requested account]
  | .replacing saved _, .returned (.ok _) => [.loaded dir saved]
  | .writing sdk _, .authorized _ => [.wroteSdk dir sdk]
  | .described sdk _, .probing _ _ => [.preLogin sdk]
  | .probed sdk _, .loggingIn _ => [.login sdk]
  | .persisting call stage, .persisting _ stage' =>
    ((stage.wrote stage').map (.wrote dir call)).toList
  | .delegated stage, .delegated stage' => stage.effects dir stage'
  | _, _ => []

/-- The authorization of the `PlayerLogin` that the call waits for. -/
def ScopedStage.login : ScopedStage → Option SdkAuthorization
  | .loggingIn sdk | .delegated (.loggingIn _ sdk) => some sdk
  | _ => none

/-- The authorization that a password request has returned. -/
def ScopedStage.answer : ScopedStage → ScopedStage → Option SdkAuthorization
  | .requesting, .answered sdk => some sdk
  | _, _ => none

def Call.isLogin : Call → Bool
  | .login _ => true
  | _ => false

/-- What has happened so far: the users that were selected, the user of the first selection since the
last reset and what was done since then, the callbacks that password requests returned, with the user of
the request, the authorization of each `PlayerLogin`, and the credentials that these logins brought, with
the callback of the authorization. -/
structure Ledger (ι : Type) where
  seen : List String
  first : Option String
  effects : List AccountEffect
  obtained : List (Callback × String)
  logins : ι → Option SdkAuthorization
  issued : List (Credentials × Callback)

namespace Ledger

variable {ι : Type} (l : Ledger ι)

def empty : Ledger ι := ⟨[], none, [], [], fun _ => none, []⟩

/-- A reset: what follows is a sequence of calls of its own. -/
def reset : Ledger ι := { l with first := none, effects := [] }

def select (user : String) : Ledger ι :=
  { l with seen := user :: l.seen, first := l.first.or (some user) }

def record (effects : List AccountEffect) : Ledger ι := { l with effects := effects ++ l.effects }

/-- The authorization is one that a password request for the user has returned. -/
def Obtained (user : String) (sdk : SdkAuthorization) : Prop := (sdk.callback, user) ∈ l.obtained

/-- The credentials were issued for a login with such an authorization. -/
def Issued (user : String) (credentials : Credentials) : Prop :=
  ∃ callback, (credentials, callback) ∈ l.issued ∧ (callback, user) ∈ l.obtained

variable [DecidableEq ι]

/-- A step of a call in its state directory. -/
def advance (r : GameRecovery ι) (account : Account) (dir : String) (stage stage' : ScopedStage) :
    Ledger ι where
  seen := l.seen
  first := l.first
  effects := stage.effects account dir stage' ++ l.effects
  obtained := ((stage.answer stage').map fun sdk => (sdk.callback, account.user)).toList ++ l.obtained
  logins :=
    match stage'.login with
    | some sdk => Function.update l.logins r.login (some sdk)
    | none => l.logins
  issued := l.issued

/-- An event of the client: a login that installs a session has brought its credentials. -/
def client (c : Client ι) (e : Client.Event ι) (c' : Client ι) : Ledger ι :=
  match e with
  | .finish i _ =>
    if c'.current ≠ c.current ∧ (c.running i).any (fun op => op.call.isLogin) then
      match l.logins i, c'.session.credentials with
      | some sdk, some credentials => { l with issued := (credentials, sdk.callback) :: l.issued }
      | _, _ => l
    else l
  | _ => l

end Ledger

/-! ### Sequences of calls -/

/-- How far a call of `recover` has come. -/
inductive AccountStage
  | entered
  | uncancelled
  | current
  | selected (account : Account)
  | working (account : Account) (dir : String) (stage : ScopedStage)

/-- The stages before the account is selected. -/
def AccountStage.unselected : AccountStage → Bool
  | .entered | .uncancelled | .current => true
  | _ => false

/-- What happens to the directory of an account in `scoped_login`: its parent is not private, it cannot
be created, or it is there. -/
inductive ScopeOutcome
  | notPrivate
  | failed
  | created
  deriving DecidableEq, Repr

/-- A directory that `DirBuilder` has just created. -/
def createdDir : StateDir := ⟨true, fun _ => none⟩

/-- What happens: an event of the client, a step of the call, or something between two calls. -/
inductive AccountEvent (ι : Type)
  | client (e : Client.Event ι)
  | recover (generation : ℕ) (probe login : ι)
  | isCancelled (cancelled : Bool)
  | proceed
  | select (files : AccountFiles)
  | scope (outcome : ScopeOutcome)
  | work (e : ScopedEvent ι)
  | reload
  | restart (transport : Transport) (now : ℕ)

/-- The events of a call itself. -/
def AccountEvent.own {ι : Type} : AccountEvent ι → Bool
  | .isCancelled _ | .proceed | .select _ | .scope _ | .work _ => true
  | _ => false

/-- The client, the state directories by their names, `selected_identity`, and the call under way. -/
structure AccountState (ι : Type) where
  client : Client ι
  disk : String → Option StateDir
  pinned : Option (List UInt8)
  running : Option (GameRecovery ι × AccountStage)
  outcome : Option (Except ClientError Unit)
  ledger : Ledger ι

/-- An event that the rest of the server can bring about: it neither logs in nor installs
credentials. -/
def Client.Event.neutral {ι : Type} : Client.Event ι → Bool
  | .submit _ (.login _ _ _) _ | .submit _ (.register _ _) _ | .importCredentials _ _
  | .replaceSession _ (some _) => false
  | _ => true

namespace AccountState

variable {ι : Type} (s : AccountState ι)

/-- The call goes on. -/
def goto (r : GameRecovery ι) (stage : AccountStage) : AccountState ι :=
  { s with running := some (r, stage) }

/-- The call returns. -/
def finish (result : Except ClientError Unit) : AccountState ι :=
  { s with running := none, outcome := some result }

def fail (e : ClientError) : AccountState ι := s.finish (.error e)

/-- The call in its state directory goes on, returns or is dropped. -/
def settle (r : GameRecovery ι) (account : Account) (dir : String) : ScopedStage → AccountState ι
  | .returned result => s.finish result
  | .dropped => { s with running := none, outcome := none }
  | stage => s.goto r (.working account dir stage)

end AccountState

namespace AccountDirectoryClient

variable {ι : Type} (a : AccountDirectoryClient)

/-- `selected_identity` of a user. -/
def identity (user : String) : List UInt8 := hashParts a.sha256 [bytes user]

/-- The name of the state directory of a user. -/
def userDir (user : String) : String := accountDir a.sha256 ⟨user, ""⟩ a.session

/-- The selection of an account, up to the pin. -/
def select (s : AccountState ι) (r : GameRecovery ι) (files : AccountFiles) : AccountState ι :=
  match selectAccount a.parse a.accounts files with
  | .error kind => s.fail (.new kind)
  | .ok account =>
    let s := { s with ledger := s.ledger.select account.user }
    if s.pinned.any fun old => old ≠ a.identity account.user then s.fail badConfig
    else { s with pinned := some (a.identity account.user) }.goto r (.selected account)

/-- `scoped_login`. -/
def scope (s : AccountState ι) (r : GameRecovery ι) (account : Account) :
    ScopeOutcome → AccountState ι
  | .notPrivate | .failed => s.fail badConfig
  | .created =>
    let dir := a.userDir account.user
    let d := (s.disk dir).getD createdDir
    let s := { s with
      disk := Function.update s.disk dir (some d)
      ledger := s.ledger.record [.opened dir] }
    match privateDir d with
    | .error e => s.fail e
    | .ok _ => s.goto r (.working account dir .entered)

/-- A step of the call. -/
def stepCall [DecidableEq ι] (lib : Libraries) (opt : ClientOptions) (serde : Serde)
    (s : AccountState ι) (r : GameRecovery ι) :
    AccountStage → AccountEvent ι → Option (AccountState ι)
  | .entered, .isCancelled cancelled =>
    some (if cancelled then s.fail (.new .cancelled) else s.goto r .uncancelled)
  | .uncancelled, .proceed =>
    some (if s.client.current ≠ r.generation then s.fail (.new .sessionChanged)
      else s.goto r .current)
  | .current, .select files => some (a.select s r files)
  | .selected account, .scope outcome => some (a.scope s r account outcome)
  | .working account dir stage, .work e =>
    match s.disk dir with
    | none => none
    | some d =>
      match a.scopedStep lib opt serde r ⟨s.client, d, stage⟩ e with
      | none => none
      | some ⟨c, d, stage'⟩ =>
        some ({ s with
          client := c
          disk := Function.update s.disk dir (some d)
          ledger := s.ledger.advance r account dir stage stage' }.settle r account dir stage')
  | _, _ => none

/-- A server that has just started: its client has no credentials. -/
def boot (lib : Libraries) (opt : ClientOptions) (transport : Transport) (now : ℕ)
    (disk : String → Option StateDir) (ledger : Ledger ι) : Option (AccountState ι) :=
  match Client.withTransport lib opt a.session none transport now with
  | .error _ => none
  | .ok c => some ⟨c, disk, none, none, none, ledger⟩

variable [DecidableEq ι]

/-- One event. -/
def step (lib : Libraries) (opt : ClientOptions) (serde : Serde) (s : AccountState ι) :
    AccountEvent ι → Option (AccountState ι)
  | .client e =>
    if e.neutral = true ∧ s.running.all (fun call => decide (call.1.Foreign e)) = true then
      (s.client.step lib opt e).map fun c =>
        { s with client := c, ledger := s.ledger.client s.client e c }
    else none
  | .recover generation probe login =>
    match s.running with
    | some _ => none
    | none =>
      if probe ≠ login ∧ (s.client.ops probe).isNone ∧ (s.client.ops login).isNone then
        some { s with
          running := some (⟨a.session, generation, probe, login⟩, .entered)
          outcome := none }
      else none
  | .reload =>
    match s.running with
    | some _ => none
    | none =>
      match s.client.replaceSession lib s.client.sessionConfig none with
      | .error _ => some s
      | .ok c => some ⟨c, s.disk, none, none, none, s.ledger.reset⟩
  | .restart transport now => a.boot lib opt transport now s.disk s.ledger.reset
  | e =>
    match s.running with
    | none => none
    | some (r, stage) => a.stepCall lib opt serde s r stage e

end AccountDirectoryClient

end MoenotesApi
