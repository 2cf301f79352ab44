import MoenotesApi.Client.Validity
import MoenotesApi.Operator.Persist

/-!
# Registering a JP account

The closure of `register_jp` (`jp.rs`), one system call at a time, and the local import of the
response that it retains.  Anything can happen to the client between two of its steps, and each
system call can fail.

* `DynamicMessage`, `MessageJson`: the message of the answer, and its JSON;
* `registeredCredentials`, `saveCredentials`, `importRegistrationResponse`;
* `RegisterCall`, `RegisterFile`, `RegisterPhase`, `Registering.step`: the closure;
* `Sound`, `CallEffect.of_step`: what the closure has established, and what one step does;
* `Registering.finish_of_ended`: the closure ends the operation of the client as `Client.step` says.
-/

namespace MoenotesApi

open JsonText Files

/-! ### The answer -/

/-- A field of a message.  A message lists the fields of its descriptor, an absent one with its
default. -/
inductive FieldValue
  | string (text : String)
  | message (fields : List (String × FieldValue))
  | other (text : String)

/-- `DynamicMessage`. -/
structure DynamicMessage where
  fields : List (String × FieldValue)

/-- `get_field_by_name`. -/
def DynamicMessage.getFieldByName (message : DynamicMessage) (name : String) : Option FieldValue :=
  message.fields.lookup name

def FieldValue.asMessage : FieldValue → Option DynamicMessage
  | .message fields => some ⟨fields⟩
  | _ => none

def FieldValue.asStr : FieldValue → Option String
  | .string text => some text
  | _ => none

/-- `serde_json` for messages with the descriptor of the answer. -/
structure MessageJson where
  toVec : DynamicMessage → Option Text
  deserialize : Text → Option DynamicMessage

/-- The closure `get`: a text field, or nothing. -/
def DynamicMessage.text (message : DynamicMessage) (name : String) : String :=
  ((message.getFieldByName name).bind FieldValue.asStr).getD ""

/-- What `register_jp` makes of an answer: the credentials, if they are usable. -/
def registeredCredentials (lib : Libraries) (config : SessionConfig) (message : DynamicMessage) :
    Except ClientError Credentials :=
  match message.getFieldByName "credential" with
  | none => .error (.new .protocol)
  | some field =>
    match field.asMessage with
    | none => .error (.new .protocol)
    | some credential =>
      let credentials := Client.registerCredentials (credential.text "id")
        (credential.text "credential") (credential.text "device_id")
      (config.metadata lib (some credentials) "validation" false).map fun _ => credentials

/-- The answer as the machine of the client has it. -/
def DynamicMessage.decoded (message : DynamicMessage) : Message :=
  match (message.getFieldByName "credential").bind FieldValue.asMessage with
  | none => .plain registerMethod.output []
  | some credential => .register (credential.text "id") (credential.text "credential")
      (credential.text "device_id")

/-! ### Files -/

/-- `Path::with_extension` of a file name. -/
def withExtension (name extension : String) : String :=
  match name.toList.reverse.dropWhile (· ≠ '.') with
  | [] | [_] => name ++ "." ++ extension
  -- of `..json` the parent directory is left, which gets no extension
  | ['.', '.'] => ".."
  | _ :: rest => String.ofList rest.reverse ++ "." ++ extension

example : withExtension "worker.json" "response" = "worker.response" := by decide

/-- `secret_file::create`, if no system call fails. -/
def secretCreate (d : StateDir) (path : String) (bytes : Text) : Except ClientError StateDir := do
  createChecks d bytes
  .refuse ((d.entries path).isSome) badConfig
  return d.set path (some (.file true bytes))

/-- What `save_credentials` writes. -/
def exportedCredentials (config : SessionConfig) (credentials : Credentials) : Text :=
  StaticCredentials.json ⟨config.region, config.origin, credentials⟩

/-- `save_credentials`. -/
def saveCredentials (config : SessionConfig) (credentials : Credentials) (d : StateDir)
    (path : String) : Except ClientError StateDir :=
  secretCreate d path (exportedCredentials config credentials)

/-- `import_registration_response`, with `source` and `output` in one directory. -/
def importRegistrationResponse (json : MessageJson) (lib : Libraries) (config : SessionConfig)
    (d : StateDir) (source output : String) : Except ClientError StateDir := do
  .refuse (config.region ≠ "jp") badConfig
  config.validate lib
  let raw ← secretRead d source
  let message ← (json.deserialize raw).elim (.error (.new .protocol)) .ok
  let field ← (message.getFieldByName "credential").elim (.error (.new .protocol)) .ok
  let credential ← field.asMessage.elim (.error (.new .protocol)) .ok
  let credentials : Credentials := {
    playerId := credential.text "id"
    credential := credential.text "credential"
    deviceId := (some (credential.text "device_id")).filter fun s => s ≠ ""
    bid := none }
  let _ ← config.metadata lib (some credentials) "validation" false
  saveCredentials config credentials d output

/-! ### The closure -/

/-- A call of `register_jp` that has got its answer. -/
structure RegisterCall (ι : Type) where
  op : ι
  generation : ℕ
  output : String
  message : DynamicMessage

/-- The files of a call, in the order in which it writes them. -/
inductive RegisterFile
  | response (raw : Text)
  | credentials (created : Credentials)

/-- How far the closure has come; `retained`: the response is saved, and the fields are read next. -/
inductive RegisterPhase
  | answered
  | checking (file : RegisterFile)
  | writing (file : RegisterFile) (w : Writing Char)
  | retained
  | saved (credentials : Credentials)
  | ended (result : Except ClientError Unit)

/-- A client and a directory while the closure runs. -/
structure Registering (ι : Type) where
  client : Client ι
  directory : StateDir
  phase : RegisterPhase

/-- What can happen meanwhile: something to the client, the next computation of the closure, or its
next system call. -/
inductive RegisterEvent (ι : Type)
  | client (e : Client.Event ι)
  | proceed
  | disk (a : Action Char)

namespace RegisterCall

variable {ι : Type} (call : RegisterCall ι)

/-- The file in which the answer is retained. -/
def responseFile : String := withExtension call.output "response"

def job (config : SessionConfig) : RegisterFile → Job Char
  | .response raw => ⟨call.responseFile, raw, false⟩
  | .credentials credentials => ⟨call.output, exportedCredentials config credentials, false⟩

theorem job_replace (config : SessionConfig) (file : RegisterFile) :
    (call.job config file).replace = false := by
  cases file <;> rfl

/-- The closure itself ends the operation. -/
def finishes : Client.Event ι → Prop
  | .finish i _ => i = call.op
  | _ => False

instance [DecidableEq ι] (e : Client.Event ι) : Decidable (call.finishes e) :=
  match e with
  | .finish i _ => decEq i call.op
  | .submit .. | .acquire _ | .enter _ | .start _ | .answer .. | .check _ | .abort .. | .drop _
  | .take _ | .cancel _ | .importCredentials .. | .replaceSession .. | .advance _ =>
    instDecidableFalse

end RegisterCall

/-- The phase after a file stands under its name. -/
def RegisterFile.next : RegisterFile → RegisterPhase
  | .response _ => .retained
  | .credentials created => .saved created

namespace Registering

variable {ι : Type} [DecidableEq ι]

/-- The configuration of the session that the call has captured. -/
def config (call : RegisterCall ι) (s : Registering ι) : SessionConfig :=
  (s.client.arena call.generation).config

/-- The closure returns an error. -/
def fail (call : RegisterCall ι) (s : Registering ι) (d : StateDir) (e : ClientError) :
    Registering ι where
  client := s.client.complete call.op (.error e)
  directory := d
  phase := .ended (.error e)

/-- The closure under the lock of the session: the new session, unless another has come. -/
def swap (call : RegisterCall ι) (s : Registering ι) (credentials : Credentials) : Registering ι :=
  if s.client.current ≠ call.generation then s.fail call s.directory (.new .sessionChanged)
  else {
    client := (s.client.install (.registered (s.config call) credentials
      (s.client.arena call.generation).transport)).complete call.op (.ok .registered)
    directory := s.directory
    phase := .ended (.ok ()) }

/-- One step of the closure. -/
def stepCall (lib : Libraries) (json : MessageJson) (call : RegisterCall ι) (s : Registering ι) :
    RegisterPhase → RegisterEvent ι → Option (Registering ι)
  | .answered, .proceed =>
    match json.toVec call.message with
    | none => some (s.fail call s.directory (.new .protocol))
    | some raw => some { s with phase := .checking (.response raw) }
  | .checking file, .proceed =>
    match createChecks s.directory (call.job (s.config call) file).content with
    | .error e => some (s.fail call s.directory e)
    | .ok _ => some { s with phase := .writing file .unopened }
  -- the metadata of the directory cannot be read
  | .checking _, .disk .discard => some (s.fail call s.directory badConfig)
  | .writing file w, .disk a =>
    match (call.job (s.config call) file).step s.directory w a with
    | none => none
    | some (d, .writing w) => some { s with directory := d, phase := .writing file w }
    | some (d, .moved) => some { s with directory := d, phase := file.next }
    | some (d, .failed) => some (s.fail call d badConfig)
  | .retained, .proceed =>
    match registeredCredentials lib (s.config call) call.message with
    | .error e => some (s.fail call s.directory e)
    | .ok credentials => some { s with phase := .checking (.credentials credentials) }
  | .saved credentials, .proceed => some (s.swap call credentials)
  | _, _ => none

/-- One event: something that happens to the client, or a step of the closure. -/
def step (lib : Libraries) (opt : ClientOptions) (json : MessageJson) (call : RegisterCall ι)
    (s : Registering ι) : RegisterEvent ι → Option (Registering ι)
  | .client e =>
    if call.finishes e then none
    else (s.client.step lib opt e).map fun client => { s with client := client }
  | e => s.stepCall lib json call s.phase e

/-! ### What a step does -/

/-- The answer stands in its file, which a reader accepts. -/
def Retained (json : MessageJson) (call : RegisterCall ι) (d : StateDir) : Prop :=
  ∃ raw, json.toVec call.message = some raw ∧ byteLength raw ≤ fileLimit ∧
    d.entries call.responseFile = some (.file true raw)

/-- What the closure has established in each phase, for the configuration `config`. -/
def Sound (lib : Libraries) (json : MessageJson) (call : RegisterCall ι) (config : SessionConfig)
    (d : StateDir) : RegisterPhase → Prop
  | .answered => True
  | .checking (.response raw) => json.toVec call.message = some raw
  | .writing (.response raw) w => json.toVec call.message = some raw ∧ byteLength raw ≤ fileLimit ∧
      (call.job config (.response raw)).Holds d w
  | .retained => Retained json call d
  | .checking (.credentials credentials) => Retained json call d ∧
      registeredCredentials lib config call.message = .ok credentials
  | .writing (.credentials credentials) w => Retained json call d ∧
      registeredCredentials lib config call.message = .ok credentials ∧
      (call.job config (.credentials credentials)).Holds d w ∧ w.temp ≠ some call.responseFile
  | .saved credentials => Retained json call d ∧
      registeredCredentials lib config call.message = .ok credentials ∧
      d.entries call.output = some (.file true (exportedCredentials config credentials))
  | .ended _ => True

/-- The phases after the answer has been saved, until the closure ends. -/
def Past : RegisterPhase → Prop
  | .retained | .checking (.credentials _) | .writing (.credentials _) _ | .saved _ => True
  | _ => False

/-- The outcome of the closure in one step, if `files` says which of its files can be created. -/
def conclusion (lib : Libraries) (call : RegisterCall ι) (s : Registering ι)
    (files : RegisterFiles) : Except ClientError (Outcome × Option Session) :=
  if files.response = false then .error badConfig
  else
    match registeredCredentials lib (s.config call) call.message with
    | .error e => .error e
    | .ok credentials =>
      if files.credentials = false then .error badConfig
      else if s.client.current ≠ call.generation then .error (.new .sessionChanged)
      else .ok (.registered, some (.registered (s.config call) credentials
        (s.client.arena call.generation).transport))

/-- The ways in which the closure goes on: it has an error, it has the next phase, or it replaces
the session. -/
inductive CallEffect (lib : Libraries) (json : MessageJson) (call : RegisterCall ι)
    (s : Registering ι) : Registering ι → Prop
  | failed {d : StateDir} {e : ClientError} (keeps : Past s.phase → Retained json call d)
      (outcome : json.toVec call.message ≠ none → ∃ files, s.conclusion lib call files = .error e) :
      CallEffect lib json call s (s.fail call d e)
  | moved {d : StateDir} {phase : RegisterPhase} (sound : Sound lib json call (s.config call) d phase)
      (keeps : Past s.phase → Past phase) (running : ∀ result, phase ≠ .ended result) :
      CallEffect lib json call s { s with directory := d, phase := phase }
  | swapped {credentials : Credentials} (phase : s.phase = .saved credentials)
      (current : s.client.current = call.generation) :
      CallEffect lib json call s {
        client := (s.client.install (.registered (s.config call) credentials
          (s.client.arena call.generation).transport)).complete call.op (.ok .registered)
        directory := s.directory
        phase := .ended (.ok ()) }

variable {lib : Libraries} {opt : ClientOptions} {json : MessageJson} {call : RegisterCall ι}
variable {s s' : Registering ι} {e : RegisterEvent ι}

omit [DecidableEq ι] in
/-- The answer that has been saved stays saved while the credentials are written. -/
theorem Retained.keeps {job : Job Char} {d d' : StateDir} {w : Writing Char} {a : Action Char}
    {p : Progress Char} (h : Retained json call d) (hreplace : job.replace = false)
    (hw : w.temp ≠ some call.responseFile) (hstep : job.step d w a = some (d', p)) :
    Retained json call d' ∧ ∀ w', p = .writing w' → w'.temp ≠ some call.responseFile := by
  obtain ⟨raw, hraw, hlen, hentry⟩ := h
  obtain ⟨hentry', htemp⟩ := Job.step_keeps hreplace hentry hw hstep
  exact ⟨⟨raw, hraw, hlen, hentry'⟩, htemp⟩

omit [DecidableEq ι] in
theorem fits_of_createChecks {d : StateDir} {content : Text} {u : Unit}
    (h : createChecks d content = .ok u) : byteLength content ≤ fileLimit := by
  simp only [createChecks, Except.bind_eq_ok, Except.refuse_eq_ok] at h
  obtain ⟨-, hlen, -⟩ := h
  exact Nat.not_lt.1 hlen

omit [DecidableEq ι] in
theorem badConfig_of_createChecks {d : StateDir} {content : Text} {error : ClientError}
    (h : createChecks d content = .error error) : error = badConfig := by
  have hall : (createChecks d content).Errors (· = badConfig) := by
    refine .bind ?_ fun _ => ?_ <;> exact Except.errors_refuse.2 fun _ => rfl
  exact hall _ h

omit [DecidableEq ι] in
/-- The file of the answer cannot be created. -/
theorem conclusion_no_response (lib : Libraries) (call : RegisterCall ι) (s : Registering ι) :
    s.conclusion lib call ⟨false, false⟩ = .error badConfig := rfl

omit [DecidableEq ι] in
/-- The file of the credentials cannot be created. -/
theorem conclusion_no_credentials {created : Credentials}
    (h : registeredCredentials lib (s.config call) call.message = .ok created) :
    s.conclusion lib call ⟨true, false⟩ = .error badConfig := by
  simp [conclusion, h]

/-- A step of the closure in a sound phase. -/
theorem CallEffect.of_step (hsound : Sound lib json call (s.config call) s.directory s.phase)
    (h : s.stepCall lib json call s.phase e = some s') : CallEffect lib json call s s' := by
  obtain ⟨client, d, phase⟩ := s
  cases phase with
  | answered =>
    cases e with
    | proceed =>
      simp only [stepCall] at h
      split at h
      · next hnone =>
        cases h
        exact .failed nofun fun hne => absurd hnone hne
      · next raw hraw =>
        cases h
        exact .moved hraw nofun nofun
    | _ => cases h
  | checking file =>
    cases e with
    | proceed =>
      simp only [stepCall] at h
      split at h
      · next herror =>
        cases h
        rw [badConfig_of_createChecks herror]
        cases file with
        | response raw => exact .failed nofun fun _ => ⟨_, conclusion_no_response lib call _⟩
        | credentials created =>
          exact .failed (fun _ => hsound.1) fun _ => ⟨_, conclusion_no_credentials hsound.2⟩
      · next hok =>
        cases h
        cases file with
        | response raw => exact .moved ⟨hsound, fits_of_createChecks hok, trivial⟩ nofun nofun
        | credentials created =>
          exact .moved ⟨hsound.1, hsound.2, trivial, nofun⟩ (fun _ => trivial) nofun
    | disk a =>
      cases a with
      | discard =>
        cases h
        cases file with
        | response raw => exact .failed nofun fun _ => ⟨_, conclusion_no_response lib call _⟩
        | credentials created =>
          exact .failed (fun _ => hsound.1) fun _ => ⟨_, conclusion_no_credentials hsound.2⟩
      | _ => cases h
    | _ => cases h
  | writing file w =>
    cases e with
    | disk a =>
      simp only [stepCall] at h
      split at h
      · cases h
      · next d' w' hstep =>
        cases h
        cases file with
        | response raw =>
          cases Job.step_spec hsound.2.2 hstep with
          | writing holds _ => exact .moved ⟨hsound.1, hsound.2.1, holds⟩ nofun nofun
        | credentials created =>
          obtain ⟨hretained, hcreated, hholds, htemp⟩ := hsound
          obtain ⟨hretained', htemp'⟩ := hretained.keeps (call.job_replace _ _) htemp hstep
          cases Job.step_spec hholds hstep with
          | writing holds _ =>
            exact .moved ⟨hretained', hcreated, holds, htemp' _ rfl⟩ (fun _ => trivial) nofun
      · next d' hstep =>
        cases h
        cases file with
        | response raw =>
          cases Job.step_spec hsound.2.2 hstep with
          | moved content _ _ => exact .moved ⟨raw, hsound.1, hsound.2.1, content⟩ nofun nofun
        | credentials created =>
          obtain ⟨hretained, hcreated, hholds, htemp⟩ := hsound
          obtain ⟨hretained', -⟩ := hretained.keeps (call.job_replace _ _) htemp hstep
          cases Job.step_spec hholds hstep with
          | moved content _ _ => exact .moved ⟨hretained', hcreated, content⟩ (fun _ => trivial) nofun
      · next d' hstep =>
        cases h
        cases file with
        | response raw => exact .failed nofun fun _ => ⟨_, conclusion_no_response lib call _⟩
        | credentials created =>
          obtain ⟨hretained, hcreated, -, htemp⟩ := hsound
          obtain ⟨hretained', -⟩ := hretained.keeps (call.job_replace _ _) htemp hstep
          exact .failed (fun _ => hretained') fun _ => ⟨_, conclusion_no_credentials hcreated⟩
    | _ => cases h
  | retained =>
    cases e with
    | proceed =>
      simp only [stepCall] at h
      split at h
      · next herror =>
        cases h
        refine .failed (fun _ => hsound) fun _ => ⟨⟨true, true⟩, ?_⟩
        simp only [conclusion, Bool.true_eq_false, if_false, herror]
      · next created hcreated =>
        cases h
        exact .moved ⟨hsound, hcreated⟩ (fun _ => trivial) nofun
    | _ => cases h
  | saved created =>
    cases e with
    | proceed =>
      simp only [stepCall, swap, Option.some.injEq] at h
      split_ifs at h with hcurrent
      · subst h
        refine .failed (fun _ => hsound.1) fun _ => ⟨⟨true, true⟩, ?_⟩
        simp only [conclusion, Bool.true_eq_false, if_false, hsound.2.1, if_pos hcurrent]
      · subst h
        exact .swapped rfl (not_not.1 hcurrent)
    | _ => cases h
  | ended result => cases h

/-! ### The operation of the client -/

omit [DecidableEq ι] in
/-- The machine of the client reads the same credentials out of the answer. -/
theorem finishRegister_eq {op : Op} (hg : op.generation = call.generation) (files : RegisterFiles) :
    Client.finishRegister lib s.client op files call.message.decoded =
      s.conclusion lib call files := by
  unfold Client.finishRegister conclusion registeredCredentials DynamicMessage.decoded config
  rw [hg]
  by_cases hfile : files.response = false
  · rw [if_pos hfile, if_pos hfile]
  · rw [if_neg hfile, if_neg hfile]
    cases call.message.getFieldByName "credential" with
    | none => rfl
    | some field =>
      simp only [Option.bind_some]
      cases field.asMessage with
      | none => rfl
      | some credential =>
        dsimp only
        cases (s.client.arena call.generation).config.metadata lib
          (some (Client.registerCredentials (credential.text "id") (credential.text "credential")
            (credential.text "device_id"))) "validation" false <;> rfl

/-- The operation of the call is under way in the client, with its answer. -/
def Answered (call : RegisterCall ι) (c : Client ι) : Prop :=
  ∃ op response, c.ops call.op = some (.running op) ∧ op.call = .register ∧
    op.generation = call.generation ∧ op.stage = .checked response ∧
    response.message = call.message.decoded

/-- The closure ends the operation as the machine of the client does in one step. -/
theorem finish_of_ended {result : Except ClientError Unit} (heffect : CallEffect lib json call s s')
    (hanswered : Answered call s.client) (hjson : json.toVec call.message ≠ none)
    (hended : s'.phase = .ended result)
    (hsound : Sound lib json call (s.config call) s.directory s.phase) :
    ∃ files, s.client.step lib opt (.finish call.op files) = some s'.client := by
  obtain ⟨op, response, hop, hcall, hg, hstage, hmessage⟩ := hanswered
  have hfinish : ∀ {files concluded}, s.conclusion lib call files = concluded →
      s.client.step lib opt (.finish call.op files) =
        s.client.stepOp lib opt call.op op (.finish call.op files) ∧
      Client.finishRegister lib s.client op files response.message = concluded := by
    rintro files _ rfl
    refine ⟨?_, ?_⟩
    · simp only [Client.step, Client.Event.op, Client.running_eq_some.2 hop]
    · rw [hmessage, finishRegister_eq hg]
  cases heffect with
  | failed keeps outcome =>
    obtain ⟨files, hfiles⟩ := outcome hjson
    obtain ⟨hstep, hconcluded⟩ := hfinish hfiles
    refine ⟨files, ?_⟩
    simp only [hstep, Client.stepOp, hstage, Client.conclude, hcall, hconcluded]
    rfl
  | moved sound keeps running => exact absurd hended (running result)
  | swapped hphase hcurrent =>
    rw [hphase] at hsound
    refine ⟨⟨true, true⟩, ?_⟩
    obtain ⟨hstep, hconcluded⟩ := @hfinish ⟨true, true⟩ _ rfl
    rw [hstep]
    simp only [Client.stepOp, hstage, Client.conclude, hcall, hconcluded, conclusion,
      Bool.true_eq_false, if_false, hsound.2.1, ne_eq, hcurrent, not_true_eq_false]

end Registering

end MoenotesApi
