import MoenotesApi.Library.Run
import MoenotesApi.Operator.RegisterStep

/-!
# What the registrations have on disk

* `plainName.distinct`: the three files of a registration have different names;
* `RegisterStage.scratch`, `Step.keeps`: a step keeps every file but the one its process writes;
* `Stands`, `Step.own_stands`: what has happened and what is on disk at each stage of a process;
* `Stands.frame`: the steps of the other processes.
-/

namespace MoenotesApi

open JsonText Files Runs

/-! ### The names -/

theorem plainName.suffix {name : String} (h : plainName name = true) :
    ∃ stem, stem ≠ [] ∧ stem.head? ≠ some '.' ∧ name.toList = stem ++ ".json".toList := by
  simp only [plainName, Bool.and_eq_true, decide_eq_true_eq, Bool.not_eq_true'] at h
  obtain ⟨⟨⟨stem, hstem⟩, hhidden⟩, -⟩ := h
  have hne : stem ≠ [] := by
    rintro rfl
    simp [isHidden, ← hstem] at hhidden
  refine ⟨stem, hne, ?_, hstem.symm⟩
  simpa [isHidden, ← hstem, List.head?_append_of_ne_nil _ hne] using hhidden

theorem plainName.visible {name : String} (h : plainName name = true) : isHidden name = false := by
  simp only [plainName, Bool.and_eq_true, Bool.not_eq_true'] at h
  exact h.1.2

theorem plainName.response {name : String} (h : plainName name = true) :
    ∃ stem, stem ≠ [] ∧ stem.head? ≠ some '.' ∧
      (withExtension name "response").toList = stem ++ ".response".toList := by
  obtain ⟨stem, hne, hhead, hname⟩ := plainName.suffix h
  refine ⟨stem, hne, hhead, ?_⟩
  have hdrop : name.toList.reverse.dropWhile (· ≠ '.') = '.' :: stem.reverse := by
    rw [hname, List.reverse_append]
    rfl
  unfold withExtension
  rw [hdrop]
  split
  · next hnil => cases hnil
  · next hone =>
    rw [List.reverse_eq_nil_iff.1 (List.cons.inj hone).2] at hne
    exact absurd rfl hne
  · next hdot =>
    rw [List.reverse_eq_iff.1 (List.cons.inj hdot).2] at hhead
    exact absurd rfl hhead
  · next rest _ _ hrest =>
    obtain rfl : stem.reverse = rest := (List.cons.inj hrest).2
    simp only [String.toList_append, String.toList_ofList, List.reverse_reverse]
    rw [List.append_assoc]
    rfl

theorem plainName.response_visible {name : String} (h : plainName name = true) :
    isHidden (withExtension name "response") = false := by
  obtain ⟨stem, hne, hhead, hname⟩ := plainName.response h
  simpa [isHidden, hname, List.head?_append_of_ne_nil _ hne] using hhead

/-- The three files of a registration have names of their own. -/
theorem plainName.distinct {name : String} (h : plainName name = true) :
    name ≠ attemptFile ∧ withExtension name "response" ≠ attemptFile ∧
      withExtension name "response" ≠ name := by
  obtain ⟨stem, -, -, hname⟩ := plainName.suffix h
  obtain ⟨stem', -, -, hresponse⟩ := plainName.response h
  have hlast : name.toList.getLast? = some 'n' := by simp [hname]
  have hlast' : (withExtension name "response").toList.getLast? = some 'e' := by simp [hresponse]
  refine ⟨?_, ?_, ?_⟩ <;> intro heq
  · rw [heq] at hlast
    exact absurd hlast (by decide)
  · rw [heq] at hlast'
    exact absurd hlast' (by decide)
  · rw [heq, hlast] at hlast'
    exact absurd hlast' (by decide)

theorem attemptFile_visible : isHidden attemptFile = false := by decide

/-! ### The stages -/

namespace RegisterStage

/-- The file that a process is writing. -/
def scratch : RegisterStage → Option String
  | .marked _ _ => some attemptFile
  | .responding _ _ _ w | .saving _ _ _ w => w.temp
  | _ => none

/-- The process has made the attempt file and has not failed since. -/
def owns : RegisterStage → Bool
  | .marked _ _ | .synced _ | .cleared _ | .requested _ | .responding _ _ _ _ | .kept _ _
  | .saving _ _ _ _ | .finished (.ok _) => true
  | _ => false

/-- The process has made the attempt file and has not asked the game. -/
def pending : RegisterStage → Bool
  | .marked _ _ | .synced _ | .cleared _ => true
  | _ => false

/-- The process has not seen the directory, or has failed. -/
def outside : RegisterStage → Bool
  | .begun | .finished (.error _) | .crashed => true
  | _ => false

variable {stage : RegisterStage}

theorem owns_of_scratch {name : String} (h : stage.scratch = some name) : stage.owns = true := by
  cases stage with
  | marked | responding | saving => rfl
  | _ => cases h

end RegisterStage

namespace Registry

variable {ι : Type} [DecidableEq ι] {lib : Libraries} {json : MessageJson}
variable {s s' : Registry ι} {e : Event ι} {i : ι} {call : RegisterCommand}
variable {stage stage' : RegisterStage} {ts : List (Transition (Registry ι) (Event ι))}

/-! ### What a step keeps -/

omit [DecidableEq ι] in
theorem Writes.keeps {d d' : StateDir} {a : Action Char} {name : String} {entry : Files.Entry Text}
    (h : Writes d call stage a d' stage') (hname : d.entries name = some entry)
    (hscratch : stage.scratch ≠ some name) : d'.entries name = some entry := by
  cases h with
  | response h | kept h | lost h | saving h | saved h | unsaved h =>
    exact (Job.step_keeps rfl hname hscratch h).1

/-- A step keeps every file but the one that its process is writing. -/
theorem Step.keeps (h : Step lib json s e s') {name : String} {entry : Files.Entry Text}
    (hname : s.directory.entries name = some entry)
    (hscratch : ∀ i call stage, e.owner = some i → s.processes i = some (call, stage) →
      stage.scratch ≠ some name) : s'.directory.entries name = some entry := by
  have hput {other : String} {content : Files.Entry Text} (hne : name ≠ other) :
      (s.put other content).directory.entries name = some entry := by
    rw [put_directory, Directory.set_of_ne _ _ hne]
    exact hname
  cases h with
  | start | quiet => exact hname
  | mark hi hfree =>
    refine hput ?_
    rintro rfl
    rw [hfree] at hname
    cases hname
  | write hi =>
    refine hput ?_
    rintro rfl
    exact hscratch _ _ _ rfl hi rfl
  | disk hi hjob hw => exact hw.keeps hname (hscratch _ _ _ rfl hi)
  | foreign hfree =>
    refine hput ?_
    rintro rfl
    rw [hfree] at hname
    cases hname

theorem Step.isPrivate (h : Step lib json s e s') :
    s'.directory.isPrivate = s.directory.isPrivate := by
  cases h with
  | start | quiet | mark | write | foreign => rfl
  | disk hi hjob hw =>
    cases hw with
    | response h | kept h | lost h | saving h | saved h | unsaved h => exact Job.step_isPrivate h

omit [DecidableEq ι] in
theorem Quiet.owner (h : Quiet lib json s i call stage e stage') : e.owner = some i := by
  cases h with
  | refused howner => exact howner
  | _ => rfl

theorem Step.others (h : Step lib json s e s') (hi : e.owner ≠ some i) :
    s'.processes i = s.processes i := by
  have hadvance {j : ι} {call : RegisterCommand} {stage : RegisterStage} (s : Registry ι)
      (hj : e.owner = some j) : (s.advance j call stage).processes i = s.processes i := by
    refine Function.update_of_ne ?_ _ _
    rintro rfl
    exact hi hj
  cases h with
  | start => exact hadvance _ rfl
  | quiet hj hquiet => exact hadvance _ hquiet.owner
  | mark | write => exact hadvance (s.put _ _) rfl
  | disk => exact hadvance (s.wrote _ _ _) rfl
  | foreign => rfl

/-! ### What is on disk -/

/-- The process has found the directory empty. -/
structure Entered (ts : List (Transition (Registry ι) (Event ι))) (i : ι) (call : RegisterCommand) :
    Prop where
  permitted : call.permitted = true
  listed : ∃ t ∈ ts, t.event = .list i ∧ ∀ name, t.before.directory.entries name = none

/-- The attempt file is complete. -/
def Marked (d : StateDir) : Prop := d.entries attemptFile = some (.file true attemptText)

/-- The process has come past the attempt file. -/
structure Past (ts : List (Transition (Registry ι) (Event ι))) (d : StateDir) (i : ι)
    (call : RegisterCommand) (session : SessionConfig) : Prop where
  entered : Entered ts i call
  session : ∃ versions, session = call.session versions
  marked : Marked d

/-- The response of the game is on disk. -/
structure Stored (json : MessageJson) (ts : List (Transition (Registry ι) (Event ι)))
    (d : StateDir) (i : ι) (call : RegisterCommand) (message : DynamicMessage) : Prop where
  answered : ∃ t ∈ ts, t.event = .answered i (.ok message)
  isPrivate : d.isPrivate = true
  file : ∃ raw, json.toVec message = some raw ∧ byteLength raw ≤ fileLimit ∧
    d.entries call.responseFile = some (.file true raw)

/-- What has happened and what is on disk when the process `i` is at a stage. -/
inductive Stands (lib : Libraries) (json : MessageJson)
    (ts : List (Transition (Registry ι) (Event ι))) (d : StateDir) (i : ι)
    (call : RegisterCommand) : RegisterStage → Prop
  | outside {stage : RegisterStage} (h : stage.outside = true) : Stands lib json ts d i call stage
  | listed (entered : Entered ts i call) : Stands lib json ts d i call .listed
  | refreshing (entered : Entered ts i call) : Stands lib json ts d i call .refreshing
  | refreshed {session} (entered : Entered ts i call)
      (hsession : ∃ versions, session = call.session versions) :
      Stands lib json ts d i call (.refreshed session)
  | marked {session written} (entered : Entered ts i call)
      (hsession : ∃ versions, session = call.session versions)
      (file : d.entries attemptFile = some (.file true written)) :
      Stands lib json ts d i call (.marked session written)
  | synced {session} (past : Past ts d i call session) :
      Stands lib json ts d i call (.synced session)
  | cleared {session} (past : Past ts d i call session) :
      Stands lib json ts d i call (.cleared session)
  | requested {session} (past : Past ts d i call session) :
      Stands lib json ts d i call (.requested session)
  | responding {session message raw w} (past : Past ts d i call session)
      (answered : ∃ t ∈ ts, t.event = .answered i (.ok message)) (isPrivate : d.isPrivate = true)
      (hraw : json.toVec message = some raw) (hlen : byteLength raw ≤ fileLimit)
      (holds : (responseJob call raw).Holds d w) :
      Stands lib json ts d i call (.responding session message raw w)
  | kept {session message} (past : Past ts d i call session)
      (stored : Stored json ts d i call message) :
      Stands lib json ts d i call (.kept session message)
  | saving {session message created w} (past : Past ts d i call session)
      (stored : Stored json ts d i call message)
      (hcreated : registeredCredentials lib session message = .ok created)
      (hlen : byteLength (exportedCredentials session created) ≤ fileLimit)
      (holds : (credentialsJob call session created).Holds d w) :
      Stands lib json ts d i call (.saving session message created w)
  | finished {session message created} (past : Past ts d i call session)
      (stored : Stored json ts d i call message)
      (hcreated : registeredCredentials lib session message = .ok created)
      (hlen : byteLength (exportedCredentials session created) ≤ fileLimit)
      (file : d.entries call.name = some (.file true (exportedCredentials session created))) :
      Stands lib json ts d i call (.finished (.ok ()))

theorem createChecks_bounds {d : StateDir} {content : Text} {u : Unit}
    (h : createChecks d content = .ok u) : byteLength content ≤ fileLimit ∧ d.isPrivate = true := by
  simp only [createChecks, Except.bind_eq_ok, Except.refuse_eq_ok] at h
  obtain ⟨-, hlen, hprivate⟩ := h
  exact ⟨Nat.not_lt.1 hlen, by simpa using hprivate⟩

section Frame

variable {t : Transition (Registry ι) (Event ι)} {d d' : StateDir} {session : SessionConfig}
variable {message : DynamicMessage}

omit [DecidableEq ι]

theorem Entered.snoc (h : Entered ts i call) : Entered (ts ++ [t]) i call := by
  obtain ⟨u, hu, he⟩ := h.listed
  exact ⟨h.permitted, u, List.mem_append_left _ hu, he⟩

/-- The file of the attempt stays, and so does what has happened. -/
theorem Past.snoc (h : Past ts d i call session) (hkeeps : Marked d → Marked d') :
    Past (ts ++ [t]) d' i call session := ⟨h.entered.snoc, h.session, hkeeps h.marked⟩

theorem Stored.snoc (h : Stored json ts d i call message) (hprivate : d'.isPrivate = d.isPrivate)
    (hkeeps : ∀ entry, d.entries call.responseFile = some entry →
      d'.entries call.responseFile = some entry) : Stored json (ts ++ [t]) d' i call message := by
  obtain ⟨u, hu, he⟩ := h.answered
  obtain ⟨raw, hraw, hlen, hfile⟩ := h.file
  exact ⟨⟨u, List.mem_append_left _ hu, he⟩, hprivate.trans h.isPrivate, raw, hraw, hlen,
    hkeeps _ hfile⟩

theorem Entered.plain (h : Entered ts i call) : plainName call.name = true := by
  have hpermitted := h.permitted
  simp only [RegisterCommand.permitted, registrationName, Bool.and_eq_true] at hpermitted
  exact hpermitted.1.2.1

/-- A write keeps up with files that stay. -/
theorem holds_of_keeps {job : Job Char} {w : Writing Char} (h : job.Holds d w)
    (hkeeps : ∀ name entry, d.entries name = some entry → d'.entries name = some entry) :
    job.Holds d' w := by
  cases w with
  | unopened => trivial
  | opened temp written | synced temp => exact ⟨h.1, hkeeps _ _ h.2⟩

/-- A step of another process, which keeps the files of a process that owns the attempt file. -/
theorem Stands.frame (h : Stands lib json ts d i call stage) (hprivate : d'.isPrivate = d.isPrivate)
    (hkeeps : stage.owns = true →
      ∀ name entry, d.entries name = some entry → d'.entries name = some entry) :
    Stands lib json (ts ++ [t]) d' i call stage := by
  cases h with
  | outside h => exact .outside h
  | listed entered => exact .listed entered.snoc
  | refreshing entered => exact .refreshing entered.snoc
  | refreshed entered hsession => exact .refreshed entered.snoc hsession
  | marked entered hsession file => exact .marked entered.snoc hsession (hkeeps rfl _ _ file)
  | synced past => exact .synced (past.snoc (hkeeps rfl _ _))
  | cleared past => exact .cleared (past.snoc (hkeeps rfl _ _))
  | requested past => exact .requested (past.snoc (hkeeps rfl _ _))
  | responding past answered isPrivate hraw hlen holds =>
    obtain ⟨u, hu, he⟩ := answered
    exact .responding (past.snoc (hkeeps rfl _ _)) ⟨u, List.mem_append_left _ hu, he⟩
      (hprivate.trans isPrivate) hraw hlen (holds_of_keeps holds (hkeeps rfl))
  | kept past stored =>
    exact .kept (past.snoc (hkeeps rfl _ _)) (stored.snoc hprivate (hkeeps rfl _))
  | saving past stored hcreated hlen holds =>
    exact .saving (past.snoc (hkeeps rfl _ _)) (stored.snoc hprivate (hkeeps rfl _)) hcreated hlen
      (holds_of_keeps holds (hkeeps rfl))
  | finished past stored hcreated hlen file =>
    exact .finished (past.snoc (hkeeps rfl _ _)) (stored.snoc hprivate (hkeeps rfl _)) hcreated hlen
      (hkeeps rfl _ _ file)

end Frame

/-- Every name with an entry is known. -/
def Complete (s : Registry ι) : Prop := ∀ name, s.directory.entries name ≠ none → name ∈ s.names

omit [DecidableEq ι] in
theorem Complete.empty (h : Complete s) (hs : s.occupied = false) (name : String) :
    s.directory.entries name = none := by
  by_contra hname
  have hall := List.any_eq_false.1 hs name (h name hname)
  rw [Option.isSome_iff_ne_none] at hall
  exact hall hname

omit [DecidableEq ι] in
theorem Quiet.stands (h : Quiet lib json s i call stage e stage') (hcomplete : Complete s)
    (hs : Stands lib json ts s.directory i call stage) :
    Stands lib json (ts ++ [⟨s, e, s'⟩]) s.directory i call stage' := by
  have happend {t : Transition (Registry ι) (Event ι)} (ht : t ∈ ts) : t ∈ ts ++ [⟨s, e, s'⟩] :=
    List.mem_append_left _ ht
  have hlast : (⟨s, e, s'⟩ : Transition (Registry ι) (Event ι)) ∈ ts ++ [⟨s, e, s'⟩] := by simp
  cases h with
  | refused | crashed => exact .outside rfl
  | listed hpermitted hempty =>
    exact .listed ⟨hpermitted, _, hlast, rfl, hcomplete.empty hempty⟩
  | refresh =>
    cases hs with
    | outside h => cases h
    | listed entered => exact .refreshing entered.snoc
  | refreshed =>
    cases hs with
    | outside h => cases h
    | refreshing entered => exact .refreshed entered.snoc ⟨_, rfl⟩
  | synced =>
    cases hs with
    | outside h => cases h
    | marked entered hsession file => exact .synced ⟨entered.snoc, hsession, file⟩
  | cleared =>
    cases hs with
    | outside h => cases h
    | synced past => exact .cleared (past.snoc id)
  | requested =>
    cases hs with
    | outside h => cases h
    | cleared past => exact .requested (past.snoc id)
  | answered hraw hchecks =>
    cases hs with
    | outside h => cases h
    | requested past =>
      obtain ⟨hlen, hprivate⟩ := createChecks_bounds hchecks
      exact .responding (past.snoc id) ⟨_, hlast, rfl⟩ hprivate hraw hlen trivial
  | save hcreated hchecks =>
    cases hs with
    | outside h => cases h
    | kept past stored =>
      exact .saving (past.snoc id) (stored.snoc rfl fun _ => id) hcreated
        (createChecks_bounds hchecks).1 trivial

/-- The temporary file of a write is hidden. -/
theorem temp_ne_of_holds {job : Job Char} {d : StateDir} {w : Writing Char} {name : String}
    (h : job.Holds d w) (hname : isHidden name = false) : w.temp ≠ some name := by
  cases w with
  | unopened => simp [Writing.temp]
  | opened temp written | synced temp =>
    rintro ⟨⟩
    rw [h.1] at hname
    cases hname

theorem keeps_visible {job : Job Char} {d d' : StateDir} {w : Writing Char} {a : Action Char}
    {p : Progress Char} (h : job.step d w a = some (d', p)) (hreplace : job.replace = false)
    (holds : job.Holds d w) {name : String} (hname : isHidden name = false)
    (entry : Files.Entry Text) (hentry : d.entries name = some entry) : d'.entries name = some entry :=
  (Job.step_keeps hreplace hentry (temp_ne_of_holds holds hname) h).1

section Writes

variable {d d' : StateDir} {a : Action Char} {t : Transition (Registry ι) (Event ι)}
variable {session : SessionConfig} {message : DynamicMessage} {raw : Text} {created : Credentials}
variable {w : Writing Char} {p : Progress Char}

omit [DecidableEq ι]

theorem Stands.response (hs : Stands lib json ts d i call (.responding session message raw w))
    (h : (responseJob call raw).step d w a = some (d', p)) :
    (∀ w', p = .writing w' →
        Stands lib json (ts ++ [t]) d' i call (.responding session message raw w')) ∧
      (p = .moved → Stands lib json (ts ++ [t]) d' i call (.kept session message)) := by
  cases hs with
  | outside h => cases h
  | responding past answered isPrivate hraw hlen holds =>
    obtain ⟨u, hu, he⟩ := answered
    have hpast := past.snoc (t := t) (keeps_visible h rfl holds attemptFile_visible _)
    have hanswered : ∃ u ∈ ts ++ [t], u.event = .answered i (.ok message) :=
      ⟨u, List.mem_append_left _ hu, he⟩
    have hprivate := (Job.step_isPrivate h).trans isPrivate
    constructor
    · rintro w' rfl
      cases Job.step_spec holds h with
      | writing holds => exact .responding hpast hanswered hprivate hraw hlen holds
    · rintro rfl
      cases Job.step_spec holds h with
      | moved content => exact .kept hpast ⟨hanswered, hprivate, _, hraw, hlen, content⟩

theorem Stands.credentials (hs : Stands lib json ts d i call (.saving session message created w))
    (h : (credentialsJob call session created).step d w a = some (d', p)) :
    (∀ w', p = .writing w' →
        Stands lib json (ts ++ [t]) d' i call (.saving session message created w')) ∧
      (p = .moved → Stands lib json (ts ++ [t]) d' i call (.finished (.ok ()))) := by
  cases hs with
  | outside h => cases h
  | saving past stored hcreated hlen holds =>
    have hpast := past.snoc (t := t) (keeps_visible h rfl holds attemptFile_visible _)
    have hstored := stored.snoc (t := t) (Job.step_isPrivate h)
      (keeps_visible h rfl holds (plainName.response_visible past.entered.plain))
    constructor
    · rintro w' rfl
      cases Job.step_spec holds h with
      | writing holds => exact .saving hpast hstored hcreated hlen holds
    · rintro rfl
      cases Job.step_spec holds h with
      | moved content => exact .finished hpast hstored hcreated hlen content

theorem Writes.stands (h : Writes d call stage a d' stage')
    (hs : Stands lib json ts d i call stage) :
    Stands lib json (ts ++ [t]) d' i call stage' := by
  cases h with
  | lost | unsaved => exact .outside rfl
  | response h => exact (hs.response h).1 _ rfl
  | kept h => exact (hs.response h).2 rfl
  | saving h => exact (hs.credentials h).1 _ rfl
  | saved h => exact (hs.credentials h).2 rfl

end Writes

/-- The step of a process. -/
theorem Step.own_stands (h : Step lib json s e s') (hi : e.owner = some i) (hcomplete : Complete s)
    (hs : ∀ call stage, s.processes i = some (call, stage) →
      Stands lib json ts s.directory i call stage)
    (hi' : s'.processes i = some (call, stage')) :
    Stands lib json (ts ++ [⟨s, e, s'⟩]) s'.directory i call stage' := by
  cases h with
  | start =>
    cases hi
    cases hi'.symm.trans (Function.update_self _ _ _)
    exact .outside rfl
  | quiet hj hquiet =>
    obtain rfl := Option.some.inj (hi.symm.trans hquiet.owner)
    cases hi'.symm.trans (Function.update_self _ _ _)
    exact hquiet.stands hcomplete (hs _ _ hj)
  | mark hj hfree =>
    cases hi
    cases hi'.symm.trans (Function.update_self _ _ _)
    cases hs _ _ hj with
    | outside h => cases h
    | refreshed entered hsession => exact .marked entered.snoc hsession (by simp)
  | write hj =>
    cases hi
    cases hi'.symm.trans (Function.update_self _ _ _)
    cases hs _ _ hj with
    | outside h => cases h
    | marked entered hsession => exact .marked entered.snoc hsession (by simp)
  | disk hj hjob hw =>
    cases hi
    cases hi'.symm.trans (Function.update_self _ _ _)
    exact hw.stands (hs _ _ hj)
  | foreign => cases hi

end Registry

end MoenotesApi
