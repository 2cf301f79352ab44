import MoenotesApi.Managed.State
import Mathlib.Logic.Function.Basic

/-!
# The managed client as a state machine

`ManagedClient` over `Client` (`managed.rs`, `managed/versions.rs`, `Runtime::reload`), with any
number of callers, recovery workers, version syncs and reloads, as a partial step function.  Every
task is cut at its awaits, at every acquisition of the state lock and between two reads of the
client.

* a caller of `execute`: `execute` (the phase), `call`, `returned`; a caller of `query_error`:
  `queryError` (the phase), `readError`, `readGeneration`; both go on with `observed`: `check` and
  `observe`;
* a worker: it may call `pre_login_with_sdk` and `login_with_sdk` with its own generation, import
  credentials with it, read the configuration and replace the session, and it ends with any result,
  in `workerReturn` and `workerEnd`; this covers the three implementations of `Recovery`;
* a version sync: `syncBegin`, `syncGeneration`, `syncRefresh`, `syncTake`, the candidates in
  `syncCandidates` and `syncAdopt`, and `syncEnd`;
* a reload: `reloadBegin`, `reloadConfig`, `reloadReplace`, `reloadEnd`; it holds the state lock;
* the rest: steps of the client, `stop`, and `edit`, a new input of the account loader.

A caller's generation is one that the client has issued.  Tasks do not panic.
-/

namespace MoenotesApi

namespace ManagedClient

/-- Who runs an operation of the client: a caller, or a worker or version sync. -/
inductive Task
  | caller (n : ℕ)
  | writer (k : ℕ)
  deriving DecidableEq, Repr

/-- How far a call of `execute` or `query_error` has come. -/
inductive Caller
  | admitted (generation : ℕ) (query : Query)
  | calling (generation : ℕ) (anonymous : Bool)
  | reading (anonymous : Bool)
  | attributing (anonymous : Bool) (error : ClientError)
  | observing (generation : ℕ) (anonymous : Bool) (result : Except ClientError Outcome)
  | locking (generation : ℕ) (result : Except ClientError Outcome)

/-- How far `sync_versions` has come. -/
inductive SyncStage
  | begun
  | captured (generation : ℕ)
  | refreshing (generation : ℕ)
  | refused (generation : ℕ) (error : ClientError)
  | trying (generation : ℕ) (error : ClientError) (previous : String) (candidates : List String)
  | adopting (generation : ℕ) (error : ClientError) (previous candidate : String)
      (candidates : List String)
  | finishing (generation : ℕ) (result : Except ClientError Outcome)
      (followed : Option (String × String))

/-- The generation that a sync has read. -/
def SyncStage.generation : SyncStage → Option ℕ
  | .begun => none
  | .captured g | .refreshing g | .refused g _ | .trying g _ _ _ | .adopting g _ _ _ _
  | .finishing g _ _ => some g

/-- The stages in which a sync waits for an operation of the client. -/
def SyncStage.waits : SyncStage → Bool
  | .refreshing _ | .adopting _ _ _ _ _ => true
  | _ => false

structure Sync where
  follow : Bool
  stage : SyncStage

/-- How far the closure of a reload has come. -/
inductive Reload
  | begun
  | read (config : SessionConfig)
  | failed (error : ClientError)
  | replaced

/-- What can replace the session. -/
inductive Activity
  | worker (worker : Worker)
  | sync (sync : Sync)
  | reload (reload : Reload)

end ManagedClient

open ManagedClient in
/-- A managed client, its tasks and callers, and the client under it. -/
structure ManagedClient (I ρ : Type) where
  client : Client ManagedClient.Task
  state : State ρ
  lock : Option ℕ
  stopped : Bool
  input : I
  activities : ℕ → Option Activity
  nextActivity : ℕ
  callers : ℕ → Option ManagedClient.Caller

namespace ManagedClient

/-- `CLIENT_CANDIDATES`. -/
def clientCandidates : ℕ := 3

/-- What can happen. -/
inductive Event (I : Type)
  | client (e : Client.Event Task)
  | stop
  | edit (input : I)
  | startVersionSync (intervalSeconds : ℕ) (followClientUpdates : Bool)
  | execute (n : ℕ) (generation : ℕ) (query : Query)
  | call (n : ℕ) (requestId : String)
  | returned (n : ℕ)
  | dropCaller (n : ℕ)
  | queryError (n : ℕ) (anonymous : Bool)
  | readError (n : ℕ)
  | readGeneration (n : ℕ)
  | check (n : ℕ)
  | observe (n : ℕ)
  | workerCall (k : ℕ) (request : Request) (requestId : String)
  | workerTake (k : ℕ)
  | workerConfig (k : ℕ)
  | workerReplace (k : ℕ) (provider : StaticCredentials)
  | workerImport (k : ℕ) (provider : StaticCredentials)
  | workerReturn (k : ℕ) (result : Except ClientError Unit)
  | workerEnd (k : ℕ)
  | syncBegin (followClientUpdates : Bool)
  | syncGeneration (k : ℕ)
  | syncRefresh (k : ℕ) (requestId : String)
  | syncTake (k : ℕ)
  | syncCandidates (k : ℕ)
  | syncAdopt (k : ℕ) (requestId : String)
  | syncEnd (k : ℕ) (time : ℕ)
  | reloadBegin
  | reloadFail (k : ℕ) (error : ClientError)
  | reloadConfig (k : ℕ)
  | reloadReplace (k : ℕ) (provider : Option StaticCredentials)
  | reloadEnd (k : ℕ)

/-- The activity that an event belongs to. -/
def Event.activity {I : Type} : Event I → Option ℕ
  | .client e =>
    match e.op with
    | some (.writer k) => some k
    | _ => none
  | .workerCall k _ _ | .workerTake k | .workerConfig k | .workerReplace k _ | .workerImport k _
  | .workerReturn k _ | .workerEnd k | .syncGeneration k | .syncRefresh k _ | .syncTake k
  | .syncCandidates k | .syncAdopt k _ | .syncEnd k _ | .reloadFail k _ | .reloadConfig k
  | .reloadReplace k _ | .reloadEnd k => some k
  | _ => none

/-- The events of a client operation that only the client decides. -/
def progresses : Client.Event Task → Bool
  | .acquire _ | .enter _ | .start _ | .answer _ _ | .check _ | .finish _ _ | .abort _ _
  | .cancel _ | .advance _ => true
  | _ => false

/-- The calls that a recovery of the generation `g` makes. -/
def recoveryCall (g : ℕ) : Request → Bool
  | .preLogin g' _ _ | .login g' _ _ => g' = g
  | _ => false

variable {I ρ : Type}

/-- `ManagedClient::new`, around a client that nobody else has used. -/
def initial (client : Client Task) (input : I) : ManagedClient I ρ where
  client := client
  state := .new
  lock := none
  stopped := false
  input := input
  activities := fun _ => none
  nextActivity := 0
  callers := fun _ => none

/-! ### State updates -/

def setClient (m : ManagedClient I ρ) (client : Client Task) : ManagedClient I ρ :=
  { m with client := client }

def setCaller (m : ManagedClient I ρ) (n : ℕ) (caller : Option Caller) : ManagedClient I ρ :=
  { m with callers := Function.update m.callers n caller }

def setActivity (m : ManagedClient I ρ) (k : ℕ) (activity : Option Activity) : ManagedClient I ρ :=
  { m with activities := Function.update m.activities k activity }

/-- A new activity. -/
def spawn (m : ManagedClient I ρ) (activity : Activity) : ManagedClient I ρ :=
  { m.setActivity m.nextActivity (some activity) with nextActivity := m.nextActivity + 1 }

section Updates

variable (m : ManagedClient I ρ) (n k : ℕ) (client : Client Task) (caller : Option Caller)
variable (activity : Option Activity) (new : Activity)

@[simp] theorem setClient_client : (m.setClient client).client = client := rfl
@[simp] theorem setClient_state : (m.setClient client).state = m.state := rfl
@[simp] theorem setClient_lock : (m.setClient client).lock = m.lock := rfl
@[simp] theorem setClient_input : (m.setClient client).input = m.input := rfl
@[simp] theorem setClient_activities : (m.setClient client).activities = m.activities := rfl
@[simp] theorem setClient_nextActivity : (m.setClient client).nextActivity = m.nextActivity := rfl
@[simp] theorem setClient_callers : (m.setClient client).callers = m.callers := rfl
@[simp] theorem setCaller_client : (m.setCaller n caller).client = m.client := rfl
@[simp] theorem setCaller_state : (m.setCaller n caller).state = m.state := rfl
@[simp] theorem setCaller_lock : (m.setCaller n caller).lock = m.lock := rfl
@[simp] theorem setCaller_input : (m.setCaller n caller).input = m.input := rfl
@[simp] theorem setCaller_activities : (m.setCaller n caller).activities = m.activities := rfl
@[simp] theorem setCaller_nextActivity : (m.setCaller n caller).nextActivity = m.nextActivity := rfl
@[simp] theorem setCaller_callers :
    (m.setCaller n caller).callers = Function.update m.callers n caller := rfl
@[simp] theorem setActivity_client : (m.setActivity k activity).client = m.client := rfl
@[simp] theorem setActivity_state : (m.setActivity k activity).state = m.state := rfl
@[simp] theorem setActivity_lock : (m.setActivity k activity).lock = m.lock := rfl
@[simp] theorem setActivity_input : (m.setActivity k activity).input = m.input := rfl
@[simp] theorem setActivity_activities :
    (m.setActivity k activity).activities = Function.update m.activities k activity := rfl
theorem setActivity_self : (m.setActivity k activity).activities k = activity := by simp
@[simp] theorem setActivity_nextActivity :
    (m.setActivity k activity).nextActivity = m.nextActivity := rfl
@[simp] theorem setActivity_callers : (m.setActivity k activity).callers = m.callers := rfl
@[simp] theorem spawn_client : (m.spawn new).client = m.client := rfl
@[simp] theorem spawn_state : (m.spawn new).state = m.state := rfl
@[simp] theorem spawn_lock : (m.spawn new).lock = m.lock := rfl
@[simp] theorem spawn_input : (m.spawn new).input = m.input := rfl
@[simp] theorem spawn_activities :
    (m.spawn new).activities = Function.update m.activities m.nextActivity (some new) := rfl
@[simp] theorem spawn_nextActivity : (m.spawn new).nextActivity = m.nextActivity + 1 := rfl
@[simp] theorem spawn_callers : (m.spawn new).callers = m.callers := rfl

end Updates

/-! ### The tasks -/

/-- One event of the client. -/
def clientStep (setup : Setup I ρ) (m : ManagedClient I ρ) (e : Client.Event Task) :
    Option (ManagedClient I ρ) :=
  (Client.step setup.lib setup.options m.client e).map m.setClient

/-- The result of the operation that `task` has called, once it has returned. -/
def returnedResult (m : ManagedClient I ρ) (task : Task) : Option (Except ClientError Outcome) :=
  match m.client.ops task with
  | some (.done result) => some result
  | _ => none

/-- The worker `k`, while `recover` runs. -/
def recovering (m : ManagedClient I ρ) (k : ℕ) : Option Worker :=
  match m.activities k with
  | some (.worker ⟨generation, initial, config, none⟩) => some ⟨generation, initial, config, none⟩
  | _ => none

/-- The sync `k`. -/
def syncing (m : ManagedClient I ρ) (k : ℕ) : Option Sync :=
  match m.activities k with
  | some (.sync sync) => some sync
  | _ => none

/-- The reload `k`. -/
def reloading (m : ManagedClient I ρ) (k : ℕ) : Option Reload :=
  match m.activities k with
  | some (.reload reload) => some reload
  | _ => none

/-- `status().phase` or the lock of `query_error`: a protected call is refused in some phases. -/
def arrive (m : ManagedClient I ρ) (n : ℕ) (anonymous : Bool) (caller : Caller) :
    Option (ManagedClient I ρ) :=
  match m.callers n with
  | some _ => none
  | none =>
    if anonymous then some (m.setCaller n (some caller))
    else if m.lock = none then
      if m.state.phase.closed then some m else some (m.setCaller n (some caller))
    else none

/-- What a sync makes of the result of an operation. -/
def afterCall (follow : Bool) (result : Except ClientError Outcome) : SyncStage → SyncStage
  | .refreshing g =>
    match result with
    | .error e => if follow && e.clientUpdateRequired then .refused g e else .finishing g result none
    | .ok _ => .finishing g result none
  | .adopting g error previous candidate candidates =>
    match result with
    | .error e =>
      if e.clientUpdateRequired then .trying g error previous candidates
      else .finishing g result none
    | .ok _ => .finishing g result (some (previous, candidate))
  | stage => stage

/-- Whether `recover` can be given up with this result, at one of its awaits. -/
def interrupted (m : ManagedClient I ρ) (result : Except ClientError Unit) : Bool :=
  failure result = some .timeout || (failure result = some .cancelled && m.stopped)

variable [DecidableEq ρ]

/-- The critical section of `observed`. -/
def observe (setup : Setup I ρ) (m : ManagedClient I ρ) (generation : ℕ)
    (result : Except ClientError Outcome) : ManagedClient I ρ :=
  if m.client.current ≠ generation then m
  else
    match m.state.observed setup m.input m.client.now generation result with
    | (state, none) => { m with state := state }
    | (state, some worker) => { m with state := state }.spawn (.worker worker)

/-- One event of a caller. -/
def stepCaller (setup : Setup I ρ) (m : ManagedClient I ρ) :
    Event I → Option (ManagedClient I ρ)
  | .execute n generation query =>
    if generation ≤ m.client.current then
      m.arrive n query.method.anonymous (.admitted generation query)
    else none
  | .call n requestId =>
    match m.callers n with
    | some (.admitted generation query) =>
      (m.clientStep setup (.submit (.caller n) (.execute generation query) requestId)).map fun m =>
        m.setCaller n (some (.calling generation query.method.anonymous))
    | _ => none
  | .returned n =>
    match m.callers n, m.returnedResult (.caller n) with
    | some (.calling generation anonymous), some result =>
      (m.clientStep setup (.take (.caller n))).map fun m =>
        m.setCaller n (some (.observing generation anonymous result))
    | _, _ => none
  | .dropCaller n =>
    match m.callers n with
    | some (.calling _ _) =>
      (m.clientStep setup (.drop (.caller n))).map fun m => m.setCaller n none
    | _ => none
  | .queryError n anonymous => m.arrive n anonymous (.reading anonymous)
  | .readError n =>
    match m.callers n with
    | some (.reading anonymous) =>
      match m.client.queryError anonymous with
      | none => some (m.setCaller n none)
      | some error => some (m.setCaller n (some (.attributing anonymous error)))
    | _ => none
  | .readGeneration n =>
    match m.callers n with
    | some (.attributing anonymous error) =>
      some (m.setCaller n (some (.observing m.client.current anonymous (.error error))))
    | _ => none
  | .check n =>
    match m.callers n with
    | some (.observing generation anonymous result) =>
      if anonymous ∨ m.client.current ≠ generation ∨ m.stopped then some (m.setCaller n none)
      else some (m.setCaller n (some (.locking generation result)))
    | _ => none
  | .observe n =>
    match m.callers n, m.lock with
    | some (.locking generation result), none =>
      some ((m.observe setup generation result).setCaller n none)
    | _, _ => none
  | _ => none

/-- One event of a worker. -/
def stepWorker (setup : Setup I ρ) (m : ManagedClient I ρ) :
    Event I → Option (ManagedClient I ρ)
  | .workerCall k request requestId =>
    match m.recovering k with
    | some worker =>
      if recoveryCall worker.generation request then
        m.clientStep setup (.submit (.writer k) request requestId)
      else none
    | none => none
  | .workerTake k =>
    match m.recovering k with
    | some _ => m.clientStep setup (.take (.writer k))
    | none => none
  | .workerConfig k =>
    match m.recovering k with
    | some worker =>
      some (m.setActivity k (some (.worker { worker with config := some m.client.sessionConfig })))
    | none => none
  | .workerReplace k provider =>
    match m.recovering k with
    | some worker =>
      match worker.config with
      | some config =>
        (m.clientStep setup (.replaceSession config (some provider))).map fun m =>
          m.setActivity k (some (.worker { worker with config := none }))
      | none => none
    | none => none
  | .workerImport k provider =>
    match m.recovering k with
    | some worker => m.clientStep setup (.importCredentials worker.generation provider)
    | none => none
  | .workerReturn k result =>
    match m.recovering k with
    | some worker =>
      match m.client.ops (.writer k) with
      | none => some (m.setActivity k (some (.worker { worker with result := some result })))
      | some _ =>
        if m.interrupted result then
          (m.clientStep setup (.drop (.writer k))).map fun m =>
            m.setActivity k (some (.worker { worker with result := some result }))
        else none
    | none => none
  | .workerEnd k =>
    match m.activities k, m.lock with
    | some (.worker worker), none =>
      match worker.result with
      | some result =>
        some { m.setActivity k none with state := m.state.ended m.client.current worker result }
      | none => none
    | _, _ => none
  | _ => none

/-- One event of a version sync. -/
def stepSync (setup : Setup I ρ) (m : ManagedClient I ρ) : Event I → Option (ManagedClient I ρ)
  | .syncBegin follow =>
    match m.lock with
    | some _ => none
    | none =>
      if m.state.versionUpdating || m.state.phase.closed then some m
      else some ({ m with state := { m.state with versionUpdating := true } }.spawn
        (.sync ⟨follow, .begun⟩))
  | .syncGeneration k =>
    match m.syncing k with
    | some ⟨follow, .begun⟩ =>
      some (m.setActivity k (some (.sync ⟨follow, .captured m.client.current⟩)))
    | _ => none
  | .syncRefresh k requestId =>
    match m.syncing k with
    | some ⟨follow, .captured g⟩ =>
      (m.clientStep setup (.submit (.writer k) (.version g none) requestId)).map fun m =>
        m.setActivity k (some (.sync ⟨follow, .refreshing g⟩))
    | _ => none
  | .syncTake k =>
    match m.syncing k, m.returnedResult (.writer k) with
    | some ⟨follow, stage⟩, some result =>
      if stage.waits then
        (m.clientStep setup (.take (.writer k))).map fun m =>
          m.setActivity k (some (.sync ⟨follow, afterCall follow result stage⟩))
      else none
    | _, _ => none
  | .syncCandidates k =>
    match m.syncing k with
    | some ⟨follow, .refused g error⟩ =>
      let previous := m.client.sessionConfig.clientVersion
      some (m.setActivity k (some (.sync
        ⟨follow, .trying g error previous (patchSuccessors previous clientCandidates)⟩)))
    | _ => none
  | .syncAdopt k requestId =>
    match m.syncing k with
    | some ⟨follow, .trying g error _ []⟩ =>
      some (m.setActivity k (some (.sync ⟨follow, .finishing g (.error error) none⟩)))
    | some ⟨follow, .trying g error previous (candidate :: candidates)⟩ =>
      (m.clientStep setup (.submit (.writer k) (.version g (some candidate)) requestId)).map fun m =>
        m.setActivity k (some (.sync ⟨follow, .adopting g error previous candidate candidates⟩))
    | _ => none
  | .syncEnd k time =>
    match m.syncing k, m.lock with
    | some ⟨_, .finishing g result followed⟩, none =>
      some { m.setActivity k none with
        state := m.state.synced g followed result m.client.current
          (m.client.queryError false).isNone m.client.sessionConfig time }
    | _, _ => none
  | _ => none

/-- One event of a reload. -/
def stepReload (setup : Setup I ρ) (m : ManagedClient I ρ) : Event I → Option (ManagedClient I ρ)
  | .reloadBegin =>
    match m.lock with
    | some _ => none
    | none =>
      if m.state.phase = .recovering ∨ m.state.versionUpdating then some m
      else some { m.spawn (.reload .begun) with lock := some m.nextActivity }
  | .reloadFail k error =>
    match m.reloading k with
    | some .begun => some (m.setActivity k (some (.reload (.failed error))))
    | _ => none
  | .reloadConfig k =>
    match m.reloading k with
    | some .begun => some (m.setActivity k (some (.reload (.read m.client.sessionConfig))))
    | _ => none
  | .reloadReplace k provider =>
    match m.reloading k with
    | some (.read config) =>
      match Client.replaceSession setup.lib m.client config provider with
      | .error e => some (m.setActivity k (some (.reload (.failed e))))
      | .ok client => some ((m.setClient client).setActivity k (some (.reload .replaced)))
    | _ => none
  | .reloadEnd k =>
    match m.reloading k with
    | some (.failed _) => some { m.setActivity k none with lock := none }
    | some .replaced => some { m.setActivity k none with lock := none, state := m.state.reloaded }
    | _ => none
  | _ => none

/-- One event. -/
def step (setup : Setup I ρ) (m : ManagedClient I ρ) (e : Event I) : Option (ManagedClient I ρ) :=
  match e with
  | .client e => if progresses e then m.clientStep setup e else none
  | .stop => some { m with stopped := true }
  | .edit input => some { m with input := input }
  | .startVersionSync intervalSeconds follow =>
    match m.lock with
    | some _ => none
    | none =>
      some { m with state := { m.state with
        versionSync := some ⟨intervalSeconds, none, m.client.sessionConfig.clientVersion, follow, 0, 0,
          0, none, none⟩ } }
  | .execute .. | .call .. | .returned .. | .dropCaller .. | .queryError .. | .readError ..
  | .readGeneration .. | .check .. | .observe .. => m.stepCaller setup e
  | .workerCall .. | .workerTake .. | .workerConfig .. | .workerReplace .. | .workerImport ..
  | .workerReturn .. | .workerEnd .. => m.stepWorker setup e
  | .syncBegin .. | .syncGeneration .. | .syncRefresh .. | .syncTake .. | .syncCandidates ..
  | .syncAdopt .. | .syncEnd .. => m.stepSync setup e
  | .reloadBegin | .reloadFail .. | .reloadConfig .. | .reloadReplace .. | .reloadEnd .. =>
    m.stepReload setup e

/-! ### A sample managed client -/

/-- Recovery is on, and the loader's input is its own revision. -/
def sampleSetup : Setup ℕ ℕ where
  lib := sampleLibraries
  options := Client.sampleOptions
  recovery := true
  initialLoader := some some
  cooldown := 60

/-- A managed client whose session has no credentials yet. -/
def sampleManaged : ManagedClient ℕ ℕ :=
  initial (Client.initial Client.sampleOptions (.fresh sampleConfig none sampleTransport) 0) 0

/-- The steps of the sample. -/
abbrev sampleStep : ManagedClient ℕ ℕ → Event ℕ → Option (ManagedClient ℕ ℕ) := step sampleSetup

/-- The operation of `task`, from its submission to the start of its call. -/
def startEvents (task : Task) : List (Event ℕ) :=
  [.client (.acquire task), .client (.advance 1), .client (.enter task), .client (.start task)]

/-- The caller `n` has got its result and goes through `observed`. -/
def observeEvents (n : ℕ) : List (Event ℕ) := [.returned n, .check n, .observe n]

/-- A protected query of the caller `n` under the generation `g`. -/
def queryEvents (n g : ℕ) : List (Event ℕ) := [.execute n g ⟨.profile, [], true⟩, .call n "request"]

end ManagedClient

end MoenotesApi
