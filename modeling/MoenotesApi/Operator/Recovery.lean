import MoenotesApi.Client.Install
import MoenotesApi.Operator.Persist

/-!
# Recovering a game session

`GameRecovery::recover` (`managed.rs`) as a state machine next to the client and the state directory.
The call is cut at every read of the session, at its two awaits and at every system call of
`persist`; in between, the client may do anything else.

* `LoginConfig.lock`: the lock file, under which no other process changes the directory;
* `Client.matchesIdentity`: `Client::matches_identity`;
* `RecoveryStage`, `RecoveryEvent`, `GameRecovery.step`: the call;
* `RecoveryStep`, `RecoveryStep.of_step`: the ways in which it goes on.

The cancellation token of the call can be cancelled at any moment, so the call of `is_cancelled` is
an event with its result; the token reaches the two RPCs as `cancel` events of the client.  What
`LoginConfig::context` returns comes from a file outside the state directory.
-/

namespace MoenotesApi

open JsonText Files

/-- `operator.lock`. -/
def lockFile : String := "operator.lock"

/-- What happens to the lock file: it cannot be opened, another process holds the lock, or none. -/
inductive LockOutcome
  | unopened
  | held
  | free
  deriving DecidableEq, Repr

/-- `LoginConfig::lock`: the directory afterwards, which has a lock file. -/
def LoginConfig.lock (d : StateDir) (outcome : LockOutcome) : StateDir × Except ClientError Unit :=
  match privateDir d with
  | .error e => (d, .error e)
  | .ok _ =>
    match d.entries lockFile, outcome with
    | some .other, _ => (d, .error badConfig)
    | _, .unopened => (d, .error badConfig)
    | some (.file _ _), .held => (d, .error (.new .queueFull))
    | some (.file _ _), .free => (d, .ok ())
    | none, .held => (d.set lockFile (some (.file true [])), .error (.new .queueFull))
    | none, .free => (d.set lockFile (some (.file true [])), .ok ())

/-- `Client::matches_identity`. -/
def Client.matchesIdentity {ι : Type} (lib : Libraries) (client : Client ι) (generation : ℕ)
    (provider : StaticCredentials) : Except ClientError Bool := do
  .refuse (client.current ≠ generation) (.new .sessionChanged)
  let supplied ← provider.provide lib client.session.config
  match client.session.credentials, supplied with
  | some a, some b => return a.playerId = b.playerId ∧ a.bid = b.bid
  | _, _ => return false

/-- The block of a session that `recover` leaves to others: `VersionBlocked` and `DeviceConflict`. -/
def unrecoverable (session : Session) : Bool :=
  session.blocked = some .version || session.blocked = some .deviceConflict

/-- The fields of `GameRecovery`, the generation of the call and the names of its two RPCs. -/
structure GameRecovery (ι : Type) where
  config : SessionConfig
  generation : ℕ
  probe : ι
  login : ι

/-- How far a call of `recover` has come. -/
inductive RecoveryStage
  | entered
  | locked
  | current
  | usable
  | loaded (saved : StaticCredentials)
  | matched (saved : StaticCredentials)
  | approved (saved : StaticCredentials) (sdk : SdkAuthorization)
  | described (saved : StaticCredentials) (sdk : SdkAuthorization)
      (context : AndroidLoginContext)
  | probing (saved : StaticCredentials) (sdk : SdkAuthorization) (context : AndroidLoginContext)
  | probed (saved : StaticCredentials) (sdk : SdkAuthorization) (context : AndroidLoginContext)
  | loggingIn (saved : StaticCredentials) (sdk : SdkAuthorization)
  | loggedIn (saved : StaticCredentials) (sdk : SdkAuthorization)
  | comparing (saved : StaticCredentials) (sdk : SdkAuthorization) (generation : ℕ)
  | compared (saved : StaticCredentials) (sdk : SdkAuthorization)
  | uncancelled (saved : StaticCredentials) (sdk : SdkAuthorization)
  | saving (saved : StaticCredentials) (call : PersistCall) (stage : PersistStage)
  | returned (result : Except ClientError Unit)
  | dropped

/-- The stages in which the call waits for one of its RPCs. -/
def RecoveryStage.awaits : RecoveryStage → Bool
  | .probing _ _ _ | .loggingIn _ _ => true
  | _ => false

/-- What happens during a call: an event of the client, a step of the call, or the call is dropped. -/
inductive RecoveryEvent (ι : Type)
  | client (e : Client.Event ι)
  | lock (outcome : LockOutcome)
  | proceed
  | context (result : Except ClientError AndroidLoginContext)
  | submit (requestId : String)
  | take
  | isCancelled (cancelled : Bool)
  | persist (id : Uuid)
  | disk (a : Action Char)
  | unread
  | drop

structure RecoveryState (ι : Type) where
  client : Client ι
  directory : StateDir
  stage : RecoveryStage

namespace GameRecovery

variable {ι : Type}

/-- The call itself submits, takes and drops its two RPCs. -/
def Foreign (r : GameRecovery ι) : Client.Event ι → Prop
  | .submit i _ _ | .take i | .drop i => i ≠ r.probe ∧ i ≠ r.login
  | _ => True

instance [DecidableEq ι] (r : GameRecovery ι) (e : Client.Event ι) : Decidable (r.Foreign e) := by
  cases e <;> unfold Foreign <;> infer_instance

/-- A step that leaves the client and the directory as they are. -/
def goto (s : RecoveryState ι) (stage : RecoveryStage) : RecoveryState ι := { s with stage := stage }

/-- The call returns an error. -/
def fail (s : RecoveryState ι) (e : ClientError) : RecoveryState ι := goto s (.returned (.error e))

/-- What follows a comparison of identities. -/
def compare (s : RecoveryState ι) (next : RecoveryStage) : Except ClientError Bool → RecoveryState ι
  | .error e => fail s e
  | .ok false => fail s badConfig
  | .ok true => goto s next

/-- The stage after a step of `persist`. -/
def afterSave (saved : StaticCredentials) (call : PersistCall) : PersistProgress → RecoveryStage
  | .running stage => .saving saved call stage
  | .returned result => .returned result

/-- A step of `persist`. -/
def save (s : RecoveryState ι) (saved : StaticCredentials) (call : PersistCall)
    (stage : PersistStage) (a : PersistAction ι) : Option (RecoveryState ι) :=
  match persistStep call s.directory stage a with
  | none => none
  | some (d, p) => some ⟨s.client, d, afterSave saved call p⟩

/-- The next computation of the call. -/
def proceed (r : GameRecovery ι) (lib : Libraries) (serde : Serde) (s : RecoveryState ι) :
    Option (RecoveryState ι) :=
  match s.stage with
  | .locked =>
    some (if s.client.current ≠ r.generation then fail s (.new .sessionChanged)
      else goto s .current)
  | .current =>
    some (if unrecoverable s.client.session then fail s (.new .sessionChanged) else goto s .usable)
  | .usable =>
    match LoginConfig.credentials serde s.directory r.config with
    | .error e => some (fail s e)
    | .ok none => some (fail s badConfig)
    | .ok (some saved) => some (goto s (.loaded saved))
  | .loaded saved =>
    some (compare s (.matched saved) (s.client.matchesIdentity lib r.generation saved))
  | .matched saved =>
    match LoginConfig.approvedSdk serde lib s.directory r.config with
    | .error e => some (fail s e)
    | .ok sdk => some (goto s (.approved saved sdk))
  | .loggedIn saved sdk => some (goto s (.comparing saved sdk s.client.current))
  | .comparing saved sdk generation =>
    some (compare s (.compared saved sdk) (s.client.matchesIdentity lib generation saved))
  | .saving saved call stage => save s saved call stage (.proceed s.client)
  | _ => none

variable [DecidableEq ι]

/-- The call takes the result of the RPC that it awaits. -/
def take (r : GameRecovery ι) (lib : Libraries) (opt : ClientOptions) (s : RecoveryState ι) :
    Option (RecoveryState ι) :=
  match s.stage with
  | .probing saved sdk context =>
    match s.client.ops r.probe, s.client.step lib opt (.take r.probe) with
    | some (.done (.ok (.roleExists true))), some c =>
      some ⟨c, s.directory, .probed saved sdk context⟩
    | some (.done (.ok (.roleExists false))), some c =>
      some ⟨c, s.directory, .returned (.error (.new .authentication))⟩
    | some (.done (.error e)), some c => some ⟨c, s.directory, .returned (.error e)⟩
    | _, _ => none
  | .loggingIn saved sdk =>
    match s.client.ops r.login, s.client.step lib opt (.take r.login) with
    | some (.done (.ok _)), some c => some ⟨c, s.directory, .loggedIn saved sdk⟩
    | some (.done (.error e)), some c => some ⟨c, s.directory, .returned (.error e)⟩
    | _, _ => none
  | _ => none

/-- One event. -/
def step (r : GameRecovery ι) (lib : Libraries) (opt : ClientOptions) (serde : Serde)
    (s : RecoveryState ι) : RecoveryEvent ι → Option (RecoveryState ι)
  | .client e =>
    if r.Foreign e then (s.client.step lib opt e).map fun c => { s with client := c } else none
  | .lock outcome =>
    match s.stage, LoginConfig.lock s.directory outcome with
    | .entered, (d, .error e) => some ⟨s.client, d, .returned (.error e)⟩
    | .entered, (d, .ok _) => some ⟨s.client, d, .locked⟩
    | _, _ => none
  | .proceed => r.proceed lib serde s
  | .context result =>
    match s.stage, result with
    | .approved _ _, .error e => some (fail s e)
    | .approved saved sdk, .ok context => some (goto s (.described saved sdk context))
    | _, _ => none
  | .submit requestId =>
    match s.stage with
    | .described saved sdk context =>
      (s.client.step lib opt (.submit r.probe (.preLogin r.generation sdk context) requestId)).map
        fun c => ⟨c, s.directory, .probing saved sdk context⟩
    | .probed saved sdk context =>
      (s.client.step lib opt (.submit r.login (.login r.generation sdk context) requestId)).map
        fun c => ⟨c, s.directory, .loggingIn saved sdk⟩
    | _ => none
  | .take => r.take lib opt s
  | .isCancelled cancelled =>
    match s.stage with
    | .compared saved sdk =>
      some (if cancelled then fail s (.new .cancelled) else goto s (.uncancelled saved sdk))
    | _ => none
  | .persist id =>
    match s.stage with
    | .uncancelled saved sdk =>
      match privateDir s.directory with
      | .error e => some (fail s e)
      | .ok _ =>
        let call : PersistCall := ⟨0, r.config, sdk, id, s.client.current⟩
        some (goto s (.saving saved call (.checking .sdk)))
    | _ => none
  | .disk a =>
    match s.stage with
    | .saving saved call stage => save s saved call stage (.disk a)
    | _ => none
  | .unread =>
    match s.stage with
    | .saving saved call stage => save s saved call stage .unread
    | _ => none
  | .drop =>
    match s.stage with
    | .probing _ _ _ =>
      (s.client.step lib opt (.drop r.probe)).map fun c => ⟨c, s.directory, .dropped⟩
    | .loggingIn _ _ =>
      (s.client.step lib opt (.drop r.login)).map fun c => ⟨c, s.directory, .dropped⟩
    | _ => none

/-! ### What an event does -/

/-- The ways in which an event can happen. -/
inductive Step (r : GameRecovery ι) (lib : Libraries) (opt : ClientOptions) (serde : Serde)
    (s : RecoveryState ι) : RecoveryEvent ι → RecoveryState ι → Prop
  | client {e : Client.Event ι} {c : Client ι} (foreign : r.Foreign e)
      (steps : s.client.step lib opt e = some c) :
      Step r lib opt serde s (.client e) { s with client := c }
  | refused {e : RecoveryEvent ι} {error : ClientError} (idle : s.stage.awaits = false) :
      Step r lib opt serde s e (fail s error)
  | notLocked {outcome : LockOutcome} {d : StateDir} {e : ClientError} (stage : s.stage = .entered)
      (locks : LoginConfig.lock s.directory outcome = (d, .error e)) :
      Step r lib opt serde s (.lock outcome) ⟨s.client, d, .returned (.error e)⟩
  | locked {outcome : LockOutcome} {d : StateDir} (stage : s.stage = .entered)
      (locks : LoginConfig.lock s.directory outcome = (d, .ok ())) :
      Step r lib opt serde s (.lock outcome) ⟨s.client, d, .locked⟩
  | current (stage : s.stage = .locked) : Step r lib opt serde s .proceed (goto s .current)
  | usable (stage : s.stage = .current) : Step r lib opt serde s .proceed (goto s .usable)
  | loaded {saved : StaticCredentials} (stage : s.stage = .usable)
      (loads : LoginConfig.credentials serde s.directory r.config = .ok (some saved)) :
      Step r lib opt serde s .proceed (goto s (.loaded saved))
  | matched {saved : StaticCredentials} (stage : s.stage = .loaded saved)
      (matching : s.client.matchesIdentity lib r.generation saved = .ok true) :
      Step r lib opt serde s .proceed (goto s (.matched saved))
  | approved {saved : StaticCredentials} {sdk : SdkAuthorization}
      (stage : s.stage = .matched saved) :
      Step r lib opt serde s .proceed (goto s (.approved saved sdk))
  | described {saved : StaticCredentials} {sdk : SdkAuthorization}
      {context : AndroidLoginContext} (stage : s.stage = .approved saved sdk) :
      Step r lib opt serde s (.context (.ok context)) (goto s (.described saved sdk context))
  | probing {saved : StaticCredentials} {sdk : SdkAuthorization} {context : AndroidLoginContext}
      {requestId : String} {c : Client ι} (stage : s.stage = .described saved sdk context)
      (steps : s.client.step lib opt
        (.submit r.probe (.preLogin r.generation sdk context) requestId) = some c) :
      Step r lib opt serde s (.submit requestId) ⟨c, s.directory, .probing saved sdk context⟩
  | probed {saved : StaticCredentials} {sdk : SdkAuthorization} {context : AndroidLoginContext}
      {c : Client ι} (stage : s.stage = .probing saved sdk context)
      (result : s.client.ops r.probe = some (.done (.ok (.roleExists true))))
      (steps : s.client.step lib opt (.take r.probe) = some c) :
      Step r lib opt serde s .take ⟨c, s.directory, .probed saved sdk context⟩
  | loggingIn {saved : StaticCredentials} {sdk : SdkAuthorization}
      {context : AndroidLoginContext} {requestId : String} {c : Client ι}
      (stage : s.stage = .probed saved sdk context)
      (steps : s.client.step lib opt
        (.submit r.login (.login r.generation sdk context) requestId) = some c) :
      Step r lib opt serde s (.submit requestId) ⟨c, s.directory, .loggingIn saved sdk⟩
  | loggedIn {saved : StaticCredentials} {sdk : SdkAuthorization} {c : Client ι}
      (stage : s.stage = .loggingIn saved sdk)
      (steps : s.client.step lib opt (.take r.login) = some c) :
      Step r lib opt serde s .take ⟨c, s.directory, .loggedIn saved sdk⟩
  | probeFailed {saved : StaticCredentials} {sdk : SdkAuthorization}
      {context : AndroidLoginContext} {c : Client ι} {e : ClientError}
      (stage : s.stage = .probing saved sdk context)
      (steps : s.client.step lib opt (.take r.probe) = some c) :
      Step r lib opt serde s .take ⟨c, s.directory, .returned (.error e)⟩
  | loginFailed {saved : StaticCredentials} {sdk : SdkAuthorization} {c : Client ι}
      {e : ClientError} (stage : s.stage = .loggingIn saved sdk)
      (steps : s.client.step lib opt (.take r.login) = some c) :
      Step r lib opt serde s .take ⟨c, s.directory, .returned (.error e)⟩
  | comparing {saved : StaticCredentials} {sdk : SdkAuthorization}
      (stage : s.stage = .loggedIn saved sdk) :
      Step r lib opt serde s .proceed (goto s (.comparing saved sdk s.client.current))
  | compared {saved : StaticCredentials} {sdk : SdkAuthorization} {generation : ℕ}
      (stage : s.stage = .comparing saved sdk generation)
      (matching : s.client.matchesIdentity lib generation saved = .ok true) :
      Step r lib opt serde s .proceed (goto s (.compared saved sdk))
  | uncancelled {saved : StaticCredentials} {sdk : SdkAuthorization}
      (stage : s.stage = .compared saved sdk) :
      Step r lib opt serde s (.isCancelled false) (goto s (.uncancelled saved sdk))
  | begun {saved : StaticCredentials} {sdk : SdkAuthorization} {id : Uuid}
      (stage : s.stage = .uncancelled saved sdk) :
      Step r lib opt serde s (.persist id) (goto s
        (.saving saved ⟨0, r.config, sdk, id, s.client.current⟩ (.checking .sdk)))
  | saved {e : RecoveryEvent ι} {saved : StaticCredentials} {call : PersistCall}
      {stage : PersistStage} {a : PersistAction ι} {d : StateDir} {p : PersistProgress}
      (saving : s.stage = .saving saved call stage)
      (present : ∀ client, a = .proceed client → client = s.client)
      (acts : persistStep call s.directory stage a = some (d, p)) :
      Step r lib opt serde s e ⟨s.client, d, afterSave saved call p⟩
  | droppedProbe {saved : StaticCredentials} {sdk : SdkAuthorization}
      {context : AndroidLoginContext} {c : Client ι} (stage : s.stage = .probing saved sdk context)
      (steps : s.client.step lib opt (.drop r.probe) = some c) :
      Step r lib opt serde s .drop ⟨c, s.directory, .dropped⟩
  | droppedLogin {saved : StaticCredentials} {sdk : SdkAuthorization} {c : Client ι}
      (stage : s.stage = .loggingIn saved sdk)
      (steps : s.client.step lib opt (.drop r.login) = some c) :
      Step r lib opt serde s .drop ⟨c, s.directory, .dropped⟩

variable {r : GameRecovery ι} {lib : Libraries} {opt : ClientOptions} {serde : Serde}
variable {s s' : RecoveryState ι}

omit [DecidableEq ι] in
theorem save_eq_some {saved : StaticCredentials} {call : PersistCall} {stage : PersistStage}
    {a : PersistAction ι} (h : save s saved call stage a = some s') :
    ∃ d p, persistStep call s.directory stage a = some (d, p) ∧
      s' = ⟨s.client, d, afterSave saved call p⟩ := by
  unfold save at h
  split at h
  · cases h
  · next d p hacts =>
    cases h
    exact ⟨d, p, hacts, rfl⟩

theorem Step.of_compare {e : RecoveryEvent ι} {next : RecoveryStage}
    {result : Except ClientError Bool} (idle : s.stage.awaits = false)
    (hnext : result = .ok true → Step r lib opt serde s e (goto s next)) :
    Step r lib opt serde s e (compare s next result) := by
  match result with
  | .error error => exact .refused idle
  | .ok false => exact .refused idle
  | .ok true => exact hnext rfl

theorem Step.of_proceed (h : r.proceed lib serde s = some s') :
    Step r lib opt serde s .proceed s' := by
  unfold proceed at h
  split at h
  · next hs =>
    cases h
    split_ifs
    · exact .refused (by rw [hs]; rfl)
    · exact .current hs
  · next hs =>
    cases h
    split_ifs
    · exact .refused (by rw [hs]; rfl)
    · exact .usable hs
  · next hs =>
    split at h
    · cases h
      exact .refused (by rw [hs]; rfl)
    · cases h
      exact .refused (by rw [hs]; rfl)
    · next hloads =>
      cases h
      exact .loaded hs hloads
  · next hs =>
    cases h
    exact .of_compare (by rw [hs]; rfl) fun hmatching => .matched hs hmatching
  · next hs =>
    split at h
    · cases h
      exact .refused (by rw [hs]; rfl)
    · cases h
      exact .approved hs
  · next hs =>
    cases h
    exact .comparing hs
  · next hs =>
    cases h
    exact .of_compare (by rw [hs]; rfl) fun hmatching => .compared hs hmatching
  · next hs =>
    obtain ⟨d, p, hacts, rfl⟩ := save_eq_some h
    refine .saved hs ?_ hacts
    rintro client ⟨⟩
    rfl
  · cases h

theorem Step.of_take (h : r.take lib opt s = some s') : Step r lib opt serde s .take s' := by
  unfold take at h
  split at h
  · next hs =>
    split at h
    · next hresult hsteps =>
      cases h
      exact .probed hs hresult hsteps
    · next hsteps =>
      cases h
      exact .probeFailed hs hsteps
    · next hsteps =>
      cases h
      exact .probeFailed hs hsteps
    · cases h
  · next hs =>
    split at h
    · next hsteps =>
      cases h
      exact .loggedIn hs hsteps
    · next hsteps =>
      cases h
      exact .loginFailed hs hsteps
    · cases h
  · cases h

theorem Step.of_step {e : RecoveryEvent ι} (h : r.step lib opt serde s e = some s') :
    Step r lib opt serde s e s' := by
  cases e with
  | client e =>
    simp only [step, Option.ite_none_right_eq_some, Option.map_eq_some_iff] at h
    obtain ⟨hforeign, c, hsteps, rfl⟩ := h
    exact .client hforeign hsteps
  | lock outcome =>
    simp only [step] at h
    split at h
    · next hs hlocks =>
      cases h
      exact .notLocked hs hlocks
    · next hs hlocks =>
      cases h
      exact .locked hs hlocks
    · cases h
  | proceed => exact .of_proceed h
  | context result =>
    simp only [step] at h
    split at h
    · next hs =>
      cases h
      exact .refused (by rw [hs]; rfl)
    · next hs =>
      cases h
      exact .described hs
    · cases h
  | submit requestId =>
    simp only [step] at h
    split at h
    · next hs =>
      obtain ⟨c, hsteps, rfl⟩ := Option.map_eq_some_iff.1 h
      exact .probing hs hsteps
    · next hs =>
      obtain ⟨c, hsteps, rfl⟩ := Option.map_eq_some_iff.1 h
      exact .loggingIn hs hsteps
    · cases h
  | take => exact .of_take h
  | isCancelled cancelled =>
    simp only [step] at h
    split at h
    · next hs =>
      cases h
      cases cancelled with
      | true => exact .refused (by rw [hs]; rfl)
      | false => exact .uncancelled hs
    · cases h
  | persist id =>
    simp only [step] at h
    split at h
    · next hs =>
      split at h
      · cases h
        exact .refused (by rw [hs]; rfl)
      · cases h
        exact .begun hs
    · cases h
  | disk a =>
    simp only [step] at h
    split at h
    · next hs =>
      obtain ⟨d, p, hacts, rfl⟩ := save_eq_some h
      exact .saved hs (by rintro client ⟨⟩) hacts
    · cases h
  | unread =>
    simp only [step] at h
    split at h
    · next hs =>
      obtain ⟨d, p, hacts, rfl⟩ := save_eq_some h
      exact .saved hs (by rintro client ⟨⟩) hacts
    · cases h
  | drop =>
    simp only [step] at h
    split at h
    · next hs =>
      obtain ⟨c, hsteps, rfl⟩ := Option.map_eq_some_iff.1 h
      exact .droppedProbe hs hsteps
    · next hs =>
      obtain ⟨c, hsteps, rfl⟩ := Option.map_eq_some_iff.1 h
      exact .droppedLogin hs hsteps
    · cases h

end GameRecovery

end MoenotesApi
