import MoenotesApi.Client.Machine
import MoenotesApi.Operator.Directory

/-!
# Saving a session

`LoginConfig::persist` (`operator.rs`), one system call at a time, and sequences of such calls on one
state directory, any of which can fail or stop anywhere.

* `Client.exported`: `Client::save_session` up to its file;
* `PersistCall`, `PersistFile`, `PersistCall.job`: a call of `persist` and its three files; the first
  two go through `secret_file::create`, the pointer through `publish`;
* `PersistStage`, `persistStep`: how far a call has come, and its next step;
* `OperatorState.step`: the calls, one after the other, and a crash at any point;
* `PersistEffect.of_step`: what one step does, to the call and to the directory.

The client may change between any two steps: each step that reads it gets its present state.
-/

namespace MoenotesApi

open JsonText Files

/-- `Client::save_session` up to the file: what it exports. -/
def Client.exported {ι : Type} (client : Client ι) (generation : ℕ) :
    Except ClientError StaticCredentials := do
  .refuse (client.current ≠ generation) (.new .sessionChanged)
  match client.session.blocked, client.session.credentials with
  | some kind, _ => .error (.new kind)
  | none, none => .error (.new .authenticationRequired)
  | none, some credentials =>
    return ⟨client.session.config.region, client.session.config.origin, credentials⟩

/-- A call of `persist`, with the generation that it has read and its number among the calls. -/
structure PersistCall where
  number : ℕ
  config : SessionConfig
  sdk : SdkAuthorization
  id : Uuid
  generation : ℕ

/-- The files of a call, in the order in which it writes them. -/
inductive PersistFile
  | sdk
  | game (saved : StaticCredentials)
  | pointer

/-- How far a call has come; `switched` is `publish` between the move and the flush of the
directory. -/
inductive PersistStage
  | checking (file : PersistFile)
  | writing (file : PersistFile) (w : Writing Char)
  | exporting
  | rechecking
  | switched

/-- What a call does next: a computation on the present client, a system call, or a `symlink_metadata`
of the pointer that fails. -/
inductive PersistAction (ι : Type)
  | proceed (client : Client ι)
  | disk (a : Action Char)
  | unread

inductive PersistProgress
  | running (stage : PersistStage)
  | returned (result : Except ClientError Unit)

namespace PersistCall

/-- The pointer that a call publishes. -/
def pointer (c : PersistCall) : Pointer :=
  ⟨c.config.region, c.config.origin, c.id.sdkName, c.id.gameName⟩

def job (c : PersistCall) : PersistFile → Job Char
  | .sdk => ⟨c.id.sdkName, c.sdk.json, false⟩
  | .game saved => ⟨c.id.gameName, saved.json, false⟩
  | .pointer => ⟨currentFile, c.pointer.json, true⟩

end PersistCall

/-- `secret_file::create` before it opens a temporary file. -/
def createChecks (d : StateDir) (content : Text) : Except ClientError Unit := do
  .refuse (fileLimit < byteLength content) badConfig
  .refuse (d.isPrivate = false) badConfig

/-- `publish` before it opens a temporary file. -/
def publishChecks (d : StateDir) : Except ClientError Unit := do
  privateDir d
  match d.entries currentFile with
  | none => return ()
  | some .other => .error badConfig
  | some (.file _ _) =>
    let _ ← privateRead d currentFile
    return ()

/-- The checks before a file is written. -/
def PersistCall.checks (c : PersistCall) (d : StateDir) : PersistFile → Except ClientError Unit
  | .sdk => createChecks d c.sdk.json
  | .game saved => createChecks d saved.json
  | .pointer => publishChecks d

/-- The stage after a file stands under its name. -/
def PersistFile.next : PersistFile → PersistStage
  | .sdk => .exporting
  | .game _ => .rechecking
  | .pointer => .switched

/-- One step of a call. -/
def persistStep {ι : Type} (c : PersistCall) (d : StateDir) :
    PersistStage → PersistAction ι → Option (StateDir × PersistProgress)
  | .checking file, .proceed _ =>
    match c.checks d file with
    | .error e => some (d, .returned (.error e))
    | .ok _ => some (d, .running (.writing file .unopened))
  -- `publish` looks at the old pointer only if it can read its metadata
  | .checking .pointer, .unread =>
    match privateDir d with
    | .error e => some (d, .returned (.error e))
    | .ok _ => some (d, .running (.writing .pointer .unopened))
  | .writing file w, .disk a =>
    match (c.job file).step d w a with
    | none => none
    | some (d, .writing w) => some (d, .running (.writing file w))
    | some (d, .moved) => some (d, .running file.next)
    | some (d, .failed) => some (d, .returned (.error badConfig))
  | .exporting, .proceed client =>
    match client.exported c.generation with
    | .error e => some (d, .returned (.error e))
    | .ok saved => some (d, .running (.checking (.game saved)))
  | .rechecking, .proceed client =>
    if client.current ≠ c.generation then some (d, .returned (.error (.new .sessionChanged)))
    else some (d, .running (.checking .pointer))
  | .switched, .disk .sync => some (d, .returned (.ok ()))
  -- a failed `symlink_metadata` in front of a file, or a failed flush of the directory
  | .checking _, .disk .discard | .switched, .disk .discard =>
    some (d, .returned (.error badConfig))
  | _, _ => none

/-- A state directory and the calls of `persist` on it. -/
structure OperatorState where
  directory : StateDir
  calls : ℕ
  running : Option (PersistCall × PersistStage)
  outcome : Option (Except ClientError Unit)

namespace OperatorState

inductive Event (ι : Type)
  | persist (config : SessionConfig) (sdk : SdkAuthorization) (id : Uuid) (client : Client ι)
  | act (a : PersistAction ι)
  | crash

/-- A directory before the first call. -/
def initial (d : StateDir) : OperatorState := ⟨d, 0, none, none⟩

/-- The call under way after one step. -/
def advance (s : OperatorState) (c : PersistCall) (d : StateDir) :
    PersistProgress → OperatorState
  | .running stage => ⟨d, s.calls, some (c, stage), none⟩
  | .returned result => ⟨d, s.calls, none, some result⟩

/-- One event. -/
def step {ι : Type} (s : OperatorState) : Event ι → Option OperatorState
  | .persist config sdk id client =>
    match s.running with
    | some _ => none
    | none =>
      match privateDir s.directory with
      | .error e => some ⟨s.directory, s.calls + 1, none, some (.error e)⟩
      | .ok _ =>
        let c : PersistCall := ⟨s.calls, config, sdk, id, client.current⟩
        some ⟨s.directory, s.calls + 1, some (c, .checking .sdk), none⟩
  | .act a =>
    match s.running with
    | none => none
    | some (c, stage) =>
      match persistStep c s.directory stage a with
      | none => none
      | some (d, p) => some (s.advance c d p)
  | .crash =>
    match s.running with
    | none => none
    | some _ => some ⟨s.directory, s.calls, none, none⟩

end OperatorState

/-! ### What a step does -/

/-- The temporary file of the file being written holds what has been written. -/
def PersistStage.Holds (c : PersistCall) (d : StateDir) : PersistStage → Prop
  | .writing file w => (c.job file).Holds d w
  | _ => True

/-- `create` accepts no more than its readers do. -/
theorem PersistCall.fits_of_checks {c : PersistCall} {d : StateDir} {file : PersistFile} {u : Unit}
    (h : c.checks d file = .ok u) (hne : file ≠ .pointer) :
    byteLength (c.job file).content ≤ fileLimit := by
  cases file with
  | pointer => exact absurd rfl hne
  | sdk =>
    simp only [checks, createChecks, Except.bind_eq_ok, Except.refuse_eq_ok] at h
    obtain ⟨-, hlen, -⟩ := h
    exact Nat.not_lt.1 hlen
  | game saved =>
    simp only [checks, createChecks, Except.bind_eq_ok, Except.refuse_eq_ok] at h
    obtain ⟨-, hlen, -⟩ := h
    exact Nat.not_lt.1 hlen

/-- The ways in which a call goes on. -/
inductive PersistEffect {ι : Type} (c : PersistCall) (d d' : StateDir) :
    PersistStage → PersistAction ι → PersistProgress → Prop
  | refused {stage : PersistStage} {a : PersistAction ι} {e : ClientError} (agrees : d.Agrees d') :
      PersistEffect c d d' stage a (.returned (.error e))
  | checked {file : PersistFile} {a : PersistAction ι}
      (fits : file ≠ .pointer → byteLength (c.job file).content ≤ fileLimit) (same : d' = d) :
      PersistEffect c d d' (.checking file) a (.running (.writing file .unopened))
  | written {file : PersistFile} {w w' : Writing Char} {a : Action Char}
      (holds : (c.job file).Holds d' w') (agrees : d.Agrees d') :
      PersistEffect c d d' (.writing file w) (.disk a) (.running (.writing file w'))
  | moved {file : PersistFile} {w : Writing Char} {a : Action Char}
      (content : d'.entries (c.job file).target = some (.file true (c.job file).content))
      (free : (c.job file).replace = false → d.entries (c.job file).target = none)
      (others : ∀ name, isHidden name = false → name ≠ (c.job file).target →
        d'.entries name = d.entries name) :
      PersistEffect c d d' (.writing file w) (.disk a) (.running file.next)
  | exported {client : Client ι} {saved : StaticCredentials}
      (export_eq : client.exported c.generation = .ok saved) (same : d' = d) :
      PersistEffect c d d' .exporting (.proceed client) (.running (.checking (.game saved)))
  | rechecked {client : Client ι} (current : client.current = c.generation) (same : d' = d) :
      PersistEffect c d d' .rechecking (.proceed client) (.running (.checking .pointer))
  | finished (same : d' = d) :
      PersistEffect c d d' .switched (.disk .sync) (.returned (.ok ()))

theorem PersistEffect.of_step {ι : Type} {c : PersistCall} {d d' : StateDir}
    {stage : PersistStage} {a : PersistAction ι} {p : PersistProgress} (hd : stage.Holds c d)
    (h : persistStep c d stage a = some (d', p)) : PersistEffect c d d' stage a p := by
  cases stage with
  | checking file =>
    cases a with
    | proceed client =>
      simp only [persistStep] at h
      split at h
      · cases h
        exact .refused (.refl d)
      · next hok =>
        cases h
        exact .checked (c.fits_of_checks hok) rfl
    | unread =>
      cases file with
      | pointer =>
        simp only [persistStep] at h
        split at h
        · cases h
          exact .refused (.refl d)
        · cases h
          exact .checked (fun hne => absurd rfl hne) rfl
      | _ => cases h
    | disk a =>
      cases a with
      | discard =>
        cases h
        exact .refused (.refl d)
      | _ => cases h
  | writing file w =>
    cases a with
    | proceed client => cases h
    | unread => cases h
    | disk a =>
      simp only [persistStep] at h
      split at h
      · cases h
      · next hstep =>
        cases h
        cases Job.step_spec hd hstep with
        | writing holds agrees => exact .written holds agrees
      · next hstep =>
        cases h
        cases Job.step_spec hd hstep with
        | moved content free others => exact .moved content free others
      · next hstep =>
        cases h
        cases Job.step_spec hd hstep with
        | failed agrees => exact .refused agrees
  | exporting =>
    cases a with
    | proceed client =>
      simp only [persistStep] at h
      split at h
      · cases h
        exact .refused (.refl d)
      · next hok =>
        cases h
        exact .exported hok rfl
    | _ => cases h
  | rechecking =>
    cases a with
    | proceed client =>
      simp only [persistStep] at h
      split_ifs at h with hne
      · cases h
        exact .refused (.refl d)
      · cases h
        exact .rechecked (not_not.1 hne) rfl
    | _ => cases h
  | switched =>
    cases a with
    | proceed client => cases h
    | unread => cases h
    | disk a =>
      cases a with
      | sync =>
        cases h
        exact .finished rfl
      | discard =>
        cases h
        exact .refused (.refl d)
      | _ => cases h

namespace OperatorState

/-- The ways in which an event can happen. -/
inductive Step {ι : Type} (s : OperatorState) : Event ι → OperatorState → Prop
  | refused {config : SessionConfig} {sdk : SdkAuthorization} {id : Uuid} {client : Client ι}
      {e : ClientError} (idle : s.running = none) :
      Step s (.persist config sdk id client) ⟨s.directory, s.calls + 1, none, some (.error e)⟩
  | begun {config : SessionConfig} {sdk : SdkAuthorization} {id : Uuid} {client : Client ι}
      (idle : s.running = none) :
      Step s (.persist config sdk id client) ⟨s.directory, s.calls + 1,
        some (⟨s.calls, config, sdk, id, client.current⟩, .checking .sdk), none⟩
  | acted {c : PersistCall} {stage : PersistStage} {a : PersistAction ι} {d : StateDir}
      {p : PersistProgress} (running : s.running = some (c, stage))
      (acts : persistStep c s.directory stage a = some (d, p)) : Step s (.act a) (s.advance c d p)
  | crashed {c : PersistCall} {stage : PersistStage} (running : s.running = some (c, stage)) :
      Step s .crash ⟨s.directory, s.calls, none, none⟩

theorem Step.of_step {ι : Type} {s s' : OperatorState} {e : Event ι} (h : s.step e = some s') :
    Step s e s' := by
  cases e with
  | persist config sdk id client =>
    simp only [step] at h
    split at h
    · cases h
    · next hidle =>
      split at h
      · cases h
        exact .refused hidle
      · cases h
        exact .begun hidle
  | act a =>
    simp only [step] at h
    split at h
    · cases h
    · next c stage hrunning =>
      split at h
      · cases h
      · next d p hacts =>
        cases h
        exact .acted hrunning hacts
  | crash =>
    simp only [step] at h
    split at h
    · cases h
    · next call hrunning =>
      obtain ⟨c, stage⟩ := call
      cases h
      exact .crashed hrunning

end OperatorState

end MoenotesApi
