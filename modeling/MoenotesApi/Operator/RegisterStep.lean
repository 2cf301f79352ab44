import MoenotesApi.Operator.JpRegister

/-!
# What one event does to the registrations

`Registry.Step s e s'` lists the ways in which an event can happen; `Step.of_step` is the inversion
lemma of `Registry.step`.
-/

namespace MoenotesApi.Registry

open JsonText Files

variable {ι : Type}

/-! ### Updates -/

section Updates

variable [DecidableEq ι] (s : Registry ι) (i : ι) (call : RegisterCommand) (stage : RegisterStage)
variable (result : Except ClientError Unit) (name : String) (entry : Files.Entry Text)

@[simp] theorem advance_directory : (s.advance i call stage).directory = s.directory := rfl
@[simp] theorem advance_names : (s.advance i call stage).names = s.names := rfl
@[simp] theorem advance_processes :
    (s.advance i call stage).processes = Function.update s.processes i (some (call, stage)) := rfl

@[simp] theorem finish_eq : s.finish i call result = s.advance i call (.finished result) := rfl

omit [DecidableEq ι] in
@[simp] theorem put_directory :
    (s.put name entry).directory = s.directory.set name (some entry) := rfl
omit [DecidableEq ι] in
@[simp] theorem put_names : (s.put name entry).names = name :: s.names := rfl
omit [DecidableEq ι] in
@[simp] theorem put_processes : (s.put name entry).processes = s.processes := rfl

omit [DecidableEq ι] in
@[simp] theorem wrote_directory (d : StateDir) (job : Job Char) (a : Action Char) :
    (s.wrote d job a).directory = d := rfl
omit [DecidableEq ι] in
@[simp] theorem wrote_processes (d : StateDir) (job : Job Char) (a : Action Char) :
    (s.wrote d job a).processes = s.processes := rfl

end Updates

/-! ### Inversion -/

variable [DecidableEq ι]

/-- The process that an event belongs to. -/
def Event.owner : Event ι → Option ι
  | .start i _ | .list i | .refresh i | .refreshed i _ | .mark i | .write i _ | .sync i | .check i
  | .request i | .answered i _ | .save i | .disk i _ | .fail i _ | .crash i => some i
  | .foreign _ _ => none

/-- A step of a process that leaves the directory alone. -/
inductive Quiet (lib : Libraries) (json : MessageJson) (s : Registry ι) (i : ι)
    (call : RegisterCommand) :
    RegisterStage → Event ι → RegisterStage → Prop
  | refused {stage e error} (howner : e.owner = some i) (he : ∀ j, e ≠ .request j ∧ e ≠ .refresh j)
      (hstage : ∀ result, stage ≠ .finished result) :
      Quiet lib json s i call stage e (.finished (.error error))
  | crashed {stage} (hstage : ∀ result, stage ≠ .finished result) :
      Quiet lib json s i call stage (.crash i) .crashed
  | listed (hpermitted : call.permitted = true) (hempty : s.occupied = false) :
      Quiet lib json s i call .begun (.list i) .listed
  | refresh : Quiet lib json s i call .listed (.refresh i) .refreshing
  | refreshed {versions} : Quiet lib json s i call .refreshing (.refreshed i (.ok versions))
      (.refreshed (call.session versions))
  | synced {session} :
      Quiet lib json s i call (.marked session attemptText) (.sync i) (.synced session)
  | cleared {session} (h : s.cleared call = true) :
      Quiet lib json s i call (.synced session) (.check i) (.cleared session)
  | requested {session} :
      Quiet lib json s i call (.cleared session) (.request i) (.requested session)
  | answered {session message raw u} (hraw : json.toVec message = some raw)
      (hchecks : createChecks s.directory raw = .ok u) :
      Quiet lib json s i call (.requested session) (.answered i (.ok message))
        (.responding session message raw .unopened)
  | save {session message created u}
      (hcreated : registeredCredentials lib session message = .ok created)
      (hchecks : createChecks s.directory (exportedCredentials session created) = .ok u) :
      Quiet lib json s i call (.kept session message) (.save i)
        (.saving session message created .unopened)

/-- A step of a write. -/
inductive Writes (d : StateDir) (call : RegisterCommand) :
    RegisterStage → Action Char → StateDir → RegisterStage → Prop
  | response {session message raw w a d' w'}
      (h : (responseJob call raw).step d w a = some (d', .writing w')) :
      Writes d call (.responding session message raw w) a d' (.responding session message raw w')
  | kept {session message raw w a d'} (h : (responseJob call raw).step d w a = some (d', .moved)) :
      Writes d call (.responding session message raw w) a d' (.kept session message)
  | lost {session message raw w a d' error}
      (h : (responseJob call raw).step d w a = some (d', .failed)) :
      Writes d call (.responding session message raw w) a d' (.finished (.error error))
  | saving {session message created w a d' w'}
      (h : (credentialsJob call session created).step d w a = some (d', .writing w')) :
      Writes d call (.saving session message created w) a d' (.saving session message created w')
  | saved {session message created w a d'}
      (h : (credentialsJob call session created).step d w a = some (d', .moved)) :
      Writes d call (.saving session message created w) a d' (.finished (.ok ()))
  | unsaved {session message created w a d' error}
      (h : (credentialsJob call session created).step d w a = some (d', .failed)) :
      Writes d call (.saving session message created w) a d' (.finished (.error error))

/-- The job of a stage that writes. -/
def jobOf (call : RegisterCommand) : RegisterStage → Option (Job Char)
  | .responding _ _ raw _ => some (responseJob call raw)
  | .saving session _ created _ => some (credentialsJob call session created)
  | _ => none

/-- `s.step e` can lead to `s'`, by the named branch. -/
inductive Step (lib : Libraries) (json : MessageJson) :
    Registry ι → Event ι → Registry ι → Prop
  | start {s i call} (hi : s.processes i = none) :
      Step lib json s (.start i call) (s.advance i call .begun)
  | quiet {s i call stage e stage'} (hi : s.processes i = some (call, stage))
      (h : Quiet lib json s i call stage e stage') : Step lib json s e (s.advance i call stage')
  | mark {s i call session} (hi : s.processes i = some (call, .refreshed session))
      (hfree : s.directory.entries attemptFile = none) :
      Step lib json s (.mark i)
        ((s.put attemptFile (.file true [])).advance i call (.marked session []))
  | write {s i call session written part}
      (hi : s.processes i = some (call, .marked session written)) :
      Step lib json s (.write i part)
        ((s.put attemptFile (.file true (written ++ part))).advance i call
          (.marked session (written ++ part)))
  | disk {s i call stage a d stage' job} (hi : s.processes i = some (call, stage))
      (hjob : jobOf call stage = some job) (h : Writes s.directory call stage a d stage') :
      Step lib json s (.disk i a) ((s.wrote d job a).advance i call stage')
  | foreign {s name entry} (hfree : s.directory.entries name = none) :
      Step lib json s (.foreign name entry) (s.put name entry)

variable {lib : Libraries} {json : MessageJson} {s s' : Registry ι} {e : Event ι} {i : ι}

theorem Step.of_stepProcess {call : RegisterCommand} {stage : RegisterStage}
    (hi : s.processes i = some (call, stage)) (howner : e.owner = some i)
    (h : s.stepProcess lib json i call stage e = some s') : Step lib json s e s' := by
  have refused {error : ClientError} (he : ∀ j, e ≠ .request j ∧ e ≠ .refresh j)
      (hstage : ∀ result, stage ≠ .finished result)
      (hs' : some (s.finish i call (.error error)) = some s') : Step lib json s e s' := by
    obtain rfl := Option.some.inj hs'
    exact .quiet hi (.refused howner he hstage)
  have quiet {stage' : RegisterStage} (hquiet : Quiet lib json s i call stage e stage')
      (hs' : some (s.advance i call stage') = some s') : Step lib json s e s' := by
    obtain rfl := Option.some.inj hs'
    exact .quiet hi hquiet
  cases e with
  | start => cases stage <;> cases h
  | foreign => cases howner
  | list =>
    cases howner
    cases stage with
    | begun =>
      simp only [stepProcess] at h
      split_ifs at h with hrefused
      · exact refused (by simp) (by simp) h
      · simp only [not_or, Bool.not_eq_false, Bool.not_eq_true] at hrefused
        exact quiet (.listed hrefused.1 hrefused.2.2) h
    | _ => cases h
  | refresh =>
    cases howner
    cases stage with
    | listed => exact quiet .refresh h
    | _ => cases h
  | refreshed _ result =>
    cases howner
    cases stage with
    | refreshing =>
      simp only [stepProcess] at h
      split at h
      · exact refused (by simp) (by simp) h
      · exact quiet .refreshed h
    | _ => cases h
  | mark =>
    cases howner
    cases stage with
    | refreshed session =>
      simp only [stepProcess] at h
      split_ifs at h with hmarked
      · exact refused (by simp) (by simp) h
      · obtain rfl := Option.some.inj h
        exact .mark hi (by simpa using hmarked)
    | _ => cases h
  | write _ part =>
    cases howner
    cases stage with
    | marked session written =>
      simp only [stepProcess] at h
      split_ifs at h
      obtain rfl := Option.some.inj h
      exact .write hi
    | _ => cases h
  | sync =>
    cases howner
    cases stage with
    | marked session written =>
      simp only [stepProcess] at h
      split_ifs at h with hwritten
      subst hwritten
      exact quiet .synced h
    | _ => cases h
  | check =>
    cases howner
    cases stage with
    | synced session =>
      simp only [stepProcess] at h
      split_ifs at h with hcleared
      · exact quiet (.cleared hcleared) h
      · exact refused (by simp) (by simp) h
    | _ => cases h
  | request =>
    cases howner
    cases stage with
    | cleared session => exact quiet .requested h
    | _ => cases h
  | answered _ result =>
    cases howner
    cases stage with
    | requested session =>
      simp only [stepProcess] at h
      split at h
      · exact refused (by simp) (by simp) h
      · split at h
        · exact refused (by simp) (by simp) h
        · next raw hraw =>
          split at h
          · exact refused (by simp) (by simp) h
          · next u hchecks => exact quiet (.answered hraw hchecks) h
    | _ => cases h
  | save =>
    cases howner
    cases stage with
    | kept session message =>
      simp only [stepProcess] at h
      split at h
      · exact refused (by simp) (by simp) h
      · next created hcreated =>
        split at h
        · exact refused (by simp) (by simp) h
        · next u hchecks => exact quiet (.save hcreated hchecks) h
    | _ => cases h
  | disk _ a =>
    cases howner
    cases stage with
    | responding session message raw w =>
      simp only [stepProcess] at h
      split at h
      · cases h
      · next d p hstep =>
        split at h <;> obtain rfl := Option.some.inj h
        · exact .disk hi rfl (.response hstep)
        · exact .disk hi rfl (.kept hstep)
        · exact .disk hi rfl (.lost hstep)
    | saving session message created w =>
      simp only [stepProcess] at h
      split at h
      · cases h
      · next d p hstep =>
        split at h <;> obtain rfl := Option.some.inj h
        · exact .disk hi rfl (.saving hstep)
        · exact .disk hi rfl (.saved hstep)
        · exact .disk hi rfl (.unsaved hstep)
    | _ => cases h
  | fail _ error =>
    cases howner
    cases stage with
    | finished | crashed | requested | responding | saving => cases h
    | _ => exact refused (by simp) (by simp) h
  | crash =>
    cases howner
    cases stage with
    | finished | crashed => cases h
    | _ => exact quiet (.crashed (by simp)) h

theorem Step.of_step (h : s.step lib json e = some s') : Step lib json s e s' := by
  cases e with
  | start i call =>
    simp only [step] at h
    split at h
    · next hi =>
      obtain rfl := Option.some.inj h
      exact .start hi
    · cases h
  | foreign name entry =>
    simp only [step] at h
    split_ifs at h with hfree
    obtain rfl := Option.some.inj h
    exact .foreign (by simpa using hfree)
  | _ =>
    obtain ⟨⟨call, stage⟩, hi, h⟩ := Option.bind_eq_some_iff.1 h
    exact .of_stepProcess hi rfl h

end MoenotesApi.Registry
