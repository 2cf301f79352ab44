import MoenotesApi.Operator.Registration
import MoenotesApi.Server.Config

/-!
# Any number of registrations of a Japanese account

`jp-register` and `jp-import-registration` (`jp_operator.rs`): any number of processes on one
accounts directory, each of which can stop at any point.

* `plainName`, `RegisterCommand.permitted`: the checks of the command line;
* `RegisterStage`, `Registry`, `Registry.step`: the processes, one system call or RPC at a time;
  what a process makes of the answer is `registeredCredentials`;
* `importRegistration`: the import of a response.

`names` lists every name that the directory has had an entry under, so the directory is empty if
none of them has one.  Other programs may add files to the directory, but remove none.  A failed
system call is an event of its own, which ends the process with an error.
-/

namespace MoenotesApi

open JsonText Files

/-- `registration.attempt`. -/
def attemptFile : String := "registration.attempt"

/-- What the attempt file says. -/
def attemptText : Text :=
  "Registration was requested. Do not retry if outcome is uncertain.\n".toList

/-- The checks of a filename that `register` and `import_registration` share. -/
def plainName (name : String) : Bool :=
  ".json".toList <:+ name.toList && !isHidden name &&
    name.toList.all fun c => c.isAlphanum || c = '-' || c = '_' || c = '.'

/-- The checks of the filename in `register`. -/
def registrationName (name : String) : Bool := plainName name && name.toList.length ≤ 100

/-- A command line with its configuration. -/
structure RegisterCommand where
  config : Config
  name : String

/-- The checks of `register` before it looks at the directory. -/
def RegisterCommand.permitted (call : RegisterCommand) : Bool :=
  call.config.session.region = "jp" && call.config.login.isNone &&
    call.config.credentialsFile.isNone && registrationName call.name && call.config.accounts.isSome

/-- The file of the response. -/
def RegisterCommand.responseFile (call : RegisterCommand) : String :=
  withExtension call.name "response"

/-- The versions that `refresh_versions` has found, in the configuration of the session. -/
def RegisterCommand.session (call : RegisterCommand) (versions : Option String × Option String) :
    SessionConfig :=
  { call.config.session with masterVersion := versions.1, resourceVersion := versions.2 }

/-- How far `register` has come. -/
inductive RegisterStage
  | begun
  | listed
  | refreshing
  | refreshed (session : SessionConfig)
  | marked (session : SessionConfig) (written : Text)
  | synced (session : SessionConfig)
  | cleared (session : SessionConfig)
  | requested (session : SessionConfig)
  | responding (session : SessionConfig) (message : DynamicMessage) (raw : Text) (w : Writing Char)
  | kept (session : SessionConfig) (message : DynamicMessage)
  | saving (session : SessionConfig) (message : DynamicMessage) (created : Credentials)
      (w : Writing Char)
  | finished (result : Except ClientError Unit)
  | crashed

/-- The directory and the processes, of the type `ι`. -/
structure Registry (ι : Type) where
  directory : StateDir
  names : List String
  processes : ι → Option (RegisterCommand × RegisterStage)

namespace Registry

variable {ι : Type}

inductive Event (ι : Type)
  | start (i : ι) (call : RegisterCommand)
  | list (i : ι)
  | refresh (i : ι)
  | refreshed (i : ι) (result : Except ClientError (Option String × Option String))
  | mark (i : ι)
  | write (i : ι) (part : Text)
  | sync (i : ι)
  | check (i : ι)
  | request (i : ι)
  | answered (i : ι) (result : Except ClientError DynamicMessage)
  | save (i : ι)
  | disk (i : ι) (a : Action Char)
  | fail (i : ι) (error : ClientError)
  | crash (i : ι)
  | foreign (name : String) (entry : Files.Entry Text)

/-- A directory with these names, before any process. -/
def initial (d : StateDir) (names : List String) : Registry ι := ⟨d, names, fun _ => none⟩

/-- `fs::read_dir(parent)?.next().is_some()`. -/
def occupied (s : Registry ι) : Bool := s.names.any fun name => (s.directory.entries name).isSome

/-- The jobs of `secret_file::create`. -/
def responseJob (call : RegisterCommand) (raw : Text) : Job Char := ⟨call.responseFile, raw, false⟩

def credentialsJob (call : RegisterCommand) (session : SessionConfig) (created : Credentials) :
    Job Char :=
  ⟨call.name, exportedCredentials session created, false⟩

section Step

variable [DecidableEq ι]

/-- The process comes to a stage. -/
def advance (s : Registry ι) (i : ι) (call : RegisterCommand) (stage : RegisterStage) :
    Registry ι :=
  { s with processes := Function.update s.processes i (some (call, stage)) }

def finish (s : Registry ι) (i : ι) (call : RegisterCommand) (result : Except ClientError Unit) :
    Registry ι :=
  s.advance i call (.finished result)

/-- An entry under a name that may be new. -/
def put (s : Registry ι) (name : String) (entry : Files.Entry Text) : Registry ι :=
  { s with directory := s.directory.set name (some entry), names := name :: s.names }

/-- The directory after a system call of a write, which may have brought a new name. -/
def wrote (s : Registry ι) (d : StateDir) (job : Job Char) (a : Action Char) : Registry ι :=
  let names :=
    match a with
    | .create temp => [temp]
    | _ => [job.target]
  { s with directory := d, names := names ++ s.names }

/-- Two files must not be there, and the directory is private. -/
def cleared (s : Registry ι) (call : RegisterCommand) : Bool :=
  (s.directory.entries call.name).isNone && (s.directory.entries (call.responseFile)).isNone &&
    s.directory.isPrivate

/-- One event of a process. -/
def stepProcess (lib : Libraries) (json : MessageJson) (s : Registry ι) (i : ι)
    (call : RegisterCommand) : RegisterStage → Event ι → Option (Registry ι)
  | .begun, .list _ =>
    if call.permitted = false ∨ s.directory.isPrivate = false ∨ s.occupied then
      some (s.finish i call (.error badConfig))
    else some (s.advance i call .listed)
  | .listed, .refresh _ => some (s.advance i call .refreshing)
  | .refreshing, .refreshed _ result =>
    match result with
    | .error e => some (s.finish i call (.error e))
    | .ok versions => some (s.advance i call (.refreshed (call.session versions)))
  | .refreshed session, .mark _ =>
    if (s.directory.entries attemptFile).isSome then some (s.finish i call (.error badConfig))
    else some ((s.put attemptFile (.file true [])).advance i call (.marked session []))
  | .marked session written, .write _ part =>
    if written ++ part <+: attemptText then
      some ((s.put attemptFile (.file true (written ++ part))).advance i call
        (.marked session (written ++ part)))
    else none
  | .marked session written, .sync _ =>
    if written = attemptText then some (s.advance i call (.synced session)) else none
  | .synced session, .check _ =>
    if s.cleared call then some (s.advance i call (.cleared session))
    else some (s.finish i call (.error badConfig))
  | .cleared session, .request _ => some (s.advance i call (.requested session))
  | .requested session, .answered _ result =>
    match result with
    | .error e => some (s.finish i call (.error e))
    | .ok message =>
      match json.toVec message with
      | none => some (s.finish i call (.error (.new .protocol)))
      | some raw =>
        match createChecks s.directory raw with
        | .error e => some (s.finish i call (.error e))
        | .ok _ => some (s.advance i call (.responding session message raw .unopened))
  | .responding session message raw w, .disk _ a =>
    match (responseJob call raw).step s.directory w a with
    | none => none
    | some (d, p) =>
      let s := s.wrote d (responseJob call raw) a
      match p with
      | .writing w => some (s.advance i call (.responding session message raw w))
      | .moved => some (s.advance i call (.kept session message))
      | .failed => some (s.finish i call (.error badConfig))
  | .kept session message, .save _ =>
    match registeredCredentials lib session message with
    | .error e => some (s.finish i call (.error e))
    | .ok created =>
      match createChecks s.directory (exportedCredentials session created) with
      | .error e => some (s.finish i call (.error e))
      | .ok _ => some (s.advance i call (.saving session message created .unopened))
  | .saving session message created w, .disk _ a =>
    match (credentialsJob call session created).step s.directory w a with
    | none => none
    | some (d, p) =>
      let s := s.wrote d (credentialsJob call session created) a
      match p with
      | .writing w => some (s.advance i call (.saving session message created w))
      | .moved => some (s.finish i call (.ok ()))
      | .failed => some (s.finish i call (.error badConfig))
  -- a process that has ended does nothing any more
  | .finished _, _ | .crashed, _ => none
  -- while a file is written, `disk` has the failed calls, and while the game is asked, `answered`
  | .requested _, .fail _ _ | .responding _ _ _ _, .fail _ _ | .saving _ _ _ _, .fail _ _ => none
  | _, .fail _ error => some (s.finish i call (.error error))
  | _, .crash _ => some (s.advance i call .crashed)
  | _, _ => none

/-- One event. -/
def step (lib : Libraries) (json : MessageJson) (s : Registry ι) (e : Event ι) :
    Option (Registry ι) :=
  match e with
  | .start i call =>
    match s.processes i with
    | none => some (s.advance i call .begun)
    | some _ => none
  | .foreign name entry =>
    if (s.directory.entries name).isNone then some (s.put name entry) else none
  | .list i | .refresh i | .refreshed i _ | .mark i | .write i _ | .sync i | .check i | .request i
  | .answered i _ | .save i | .disk i _ | .fail i _ | .crash i =>
    (s.processes i).bind fun process => s.stepProcess lib json i process.1 process.2 e

end Step

end Registry

/-! ### Import -/

/-- `import_registration`. -/
def importRegistration (json : MessageJson) (lib : Libraries) (d : StateDir) (config : Config)
    (name : String) : Except ClientError StateDir := do
  .refuse (plainName name = false) badConfig
  .refuse config.accounts.isNone badConfig
  privateDir d
  importRegistrationResponse json lib config.session d (withExtension name "response") name

end MoenotesApi
