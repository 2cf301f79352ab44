import MoenotesApi.Operator.RegisterDisk
import MoenotesApi.Operator.Reimport

/-!
# One registration in an accounts directory

The attempt file belongs to the process that has made it, and no other process comes past it.

* `Owned`, `Step.owned`: only the owner of the attempt file has come past it, and it asks the game
  once;
* `Registered`, `registered_of_run`: the invariant of the registrations;
* `register_once`, `occupied_refused`: what follows for the requests;
* `registered_files`, `response_recoverable`: what follows for the files.
-/

namespace MoenotesApi

namespace Registry

open JsonText Files Runs

variable {ι : Type} [DecidableEq ι] {lib : Libraries} {json : MessageJson}
variable {s s' : Registry ι} {e : Event ι} {i : ι} {call : RegisterCommand}
variable {stage stage' : RegisterStage} {ts : List (Transition (Registry ι) (Event ι))}

/-! ### The owner of the attempt file -/

/-- The event asks the game. -/
def Event.isRequest : Event ι → Bool
  | .request _ => true
  | _ => false

/-- The requests of a run. -/
def requests (ts : List (Transition (Registry ι) (Event ι))) :
    List (Transition (Registry ι) (Event ι)) :=
  ts.filter fun t => t.event.isRequest

/-- `o` is the process that has made the attempt file, if one has. -/
structure Owned (ts : List (Transition (Registry ι) (Event ι))) (s : Registry ι)
    (o : Option ι) : Prop where
  present : o ≠ none → s.directory.entries attemptFile ≠ none
  sole : ∀ i call stage, s.processes i = some (call, stage) → stage.owns = true → o = some i
  once : (requests ts).length ≤ 1
  -- while the owner has not asked the game, nobody has
  fresh :
    (∀ i, o = some i → ∃ call stage, s.processes i = some (call, stage) ∧ stage.pending = true) →
      requests ts = []

omit [DecidableEq ι] in
theorem requests_snoc (he : e.isRequest = false) : requests (ts ++ [⟨s, e, s'⟩]) = requests ts := by
  simp [requests, he]

omit [DecidableEq ι] in
theorem Quiet.owns (h : Quiet lib json s i call stage e stage') (howns : stage'.owns = true) :
    stage.owns = true := by
  cases h with
  | synced | cleared | requested | answered | save => rfl
  | _ => cases howns

omit [DecidableEq ι] in
theorem Quiet.pending (h : Quiet lib json s i call stage e stage')
    (hpending : stage'.pending = true) : stage.pending = true := by
  cases h with
  | synced | cleared => rfl
  | _ => cases hpending

omit [DecidableEq ι] in
theorem Writes.owns {d d' : StateDir} {a : Action Char} (h : Writes d call stage a d' stage') :
    stage.owns = true ∧ stage'.pending = false := by
  cases h <;> exact ⟨rfl, rfl⟩

/-- A step that neither makes the attempt file nor asks the game. -/
theorem Owned.advance {o : Option ι} (h : Owned ts s o)
    (hsteps : ∀ j, e.owner ≠ some j → s'.processes j = s.processes j) (hi : e.owner = some i)
    (he : e.isRequest = false)
    (hpresent : s.directory.entries attemptFile ≠ none → s'.directory.entries attemptFile ≠ none)
    (hs : s'.processes i = some (call, stage')) (howns : stage'.owns = true → o = some i)
    (hpending : stage'.pending = true →
      ∃ call stage, s.processes i = some (call, stage) ∧ stage.pending = true) :
    Owned (ts ++ [⟨s, e, s'⟩]) s' o := by
  have hothers {j : ι} (hj : j ≠ i) : s'.processes j = s.processes j := by
    refine hsteps j ?_
    rw [hi]
    intro heq
    exact hj (Option.some.inj heq).symm
  constructor
  · exact fun ho => hpresent (h.present ho)
  · intro j call' stage hj hstage
    by_cases hji : j = i
    · subst hji
      cases hs.symm.trans hj
      exact howns hstage
    · exact h.sole j call' stage (by rwa [← hothers hji]) hstage
  · rw [requests_snoc he]
    exact h.once
  · rw [requests_snoc he]
    intro hfresh
    refine h.fresh fun j hj => ?_
    obtain ⟨call', stage, hstage, hp⟩ := hfresh j hj
    by_cases hji : j = i
    · subst hji
      cases hs.symm.trans hstage
      exact hpending hp
    · exact ⟨call', stage, by rwa [← hothers hji], hp⟩

omit [DecidableEq ι] in
theorem Writes.keeps_visible {d d' : StateDir} {a : Action Char}
    (h : Writes d call stage a d' stage') (hs : Stands lib json ts d i call stage) {name : String}
    (hname : isHidden name = false) {entry : Files.Entry Text}
    (hentry : d.entries name = some entry) : d'.entries name = some entry := by
  refine h.keeps hentry ?_
  cases h with
  | response | kept | lost =>
    cases hs with
    | outside h => cases h
    | responding _ _ _ _ _ holds => exact temp_ne_of_holds holds hname
  | saving | saved | unsaved =>
    cases hs with
    | outside h => cases h
    | saving _ _ _ _ holds => exact temp_ne_of_holds holds hname

/-- A step keeps every visible file but the attempt file. -/
theorem Step.keeps_visible (h : Step lib json s e s')
    (hs : ∀ i call stage, s.processes i = some (call, stage) →
      Stands lib json ts s.directory i call stage)
    {name : String} (hname : isHidden name = false) (hattempt : name ≠ attemptFile)
    {entry : Files.Entry Text} (hentry : s.directory.entries name = some entry) :
    s'.directory.entries name = some entry := by
  refine h.keeps hentry fun i call stage _ hi => ?_
  cases hs i call stage hi with
  | marked => exact fun heq => hattempt (Option.some.inj heq).symm
  | responding _ _ _ _ _ holds | saving _ _ _ _ holds => exact temp_ne_of_holds holds hname
  | outside h =>
    intro hscratch
    cases stage with
    | marked | responding | saving => cases h
    | _ => cases hscratch
  | _ => simp [RegisterStage.scratch]

/-- The attempt file is never removed. -/
theorem Step.present (h : Step lib json s e s')
    (hs : ∀ i call stage, s.processes i = some (call, stage) →
      Stands lib json ts s.directory i call stage)
    (hpresent : s.directory.entries attemptFile ≠ none) :
    s'.directory.entries attemptFile ≠ none := by
  obtain ⟨entry, hentry⟩ := Option.ne_none_iff_exists'.1 hpresent
  have hkept := fun hscratch => h.keeps hentry hscratch
  cases h with
  | start | quiet => exact hpresent
  | mark | write => simp
  | disk hi hjob hw =>
    rw [advance_directory, wrote_directory,
      hw.keeps_visible (hs _ _ _ hi) attemptFile_visible hentry]
    simp
  | foreign =>
    rw [hkept (by rintro _ _ _ ⟨⟩)]
    simp

theorem Owned.request {o : Option ι} (h : Owned ts s o) (hi : s.processes i = some (call, stage))
    (hquiet : Quiet lib json s i call stage e stage') (he : e.isRequest = true) :
    Owned (ts ++ [⟨s, e, s.advance i call stage'⟩]) (s.advance i call stage') o := by
  cases hquiet with
  | requested =>
    have ho : o = some i := h.sole i call _ hi rfl
    have hnever : requests ts = [] := by
      refine h.fresh fun j hj => ?_
      obtain rfl := Option.some.inj (ho.symm.trans hj)
      exact ⟨call, _, hi, rfl⟩
    refine ⟨h.present, ?_, ?_, ?_⟩
    · intro j call' stage hj hstage
      by_cases hji : j = i
      · rw [hji, ho]
      · rw [advance_processes, Function.update_of_ne hji] at hj
        exact h.sole j call' stage hj hstage
    · rw [requests, List.filter_append, ← requests, hnever]
      simp [Event.isRequest]
    · -- the owner has just asked
      intro hfresh
      obtain ⟨call', stage, hstage, hp⟩ := hfresh i ho
      cases (Function.update_self _ _ _).symm.trans hstage
      cases hp
  | refused _ hne =>
    cases e with
    | request j => exact absurd rfl (hne j).1
    | _ => cases he
  | _ => cases he

/-- Whoever makes the attempt file becomes its owner, and asks the game once. -/
theorem Step.owned {o : Option ι} (h : Step lib json s e s') (ho : Owned ts s o)
    (hs : ∀ i call stage, s.processes i = some (call, stage) →
      Stands lib json ts s.directory i call stage) :
    ∃ o', Owned (ts ++ [⟨s, e, s'⟩]) s' o' := by
  have hpresent := h.present hs
  have hothers := fun j => h.others (i := j)
  cases h with
  | start =>
    exact ⟨o, ho.advance hothers rfl rfl hpresent (Function.update_self _ _ _) (by rintro ⟨⟩)
      (by rintro ⟨⟩)⟩
  | write hi =>
    exact ⟨o, ho.advance hothers rfl rfl hpresent (Function.update_self _ _ _)
      (fun _ => ho.sole _ _ _ hi rfl) (fun _ => ⟨_, _, hi, rfl⟩)⟩
  | disk hi hjob hw =>
    refine ⟨o, ho.advance hothers rfl rfl hpresent (Function.update_self _ _ _)
      (fun _ => ho.sole _ _ _ hi hw.owns.1) fun hp => ?_⟩
    rw [hw.owns.2] at hp
    cases hp
  | foreign hfree =>
    refine ⟨o, fun hne => hpresent (ho.present hne), ho.sole, ?_, ?_⟩
    · rw [requests_snoc rfl]
      exact ho.once
    · rw [requests_snoc rfl]
      exact ho.fresh
  | @quiet i call stage _ stage' hi hquiet =>
    have hself : (s.advance i call stage').processes i = some (call, stage') :=
      Function.update_self _ _ _
    have howns : stage'.owns = true → o = some i := fun h => ho.sole i call stage hi (hquiet.owns h)
    cases hrequest : e.isRequest with
    | false =>
      exact ⟨o, ho.advance hothers hquiet.owner hrequest hpresent hself howns
        fun hp => ⟨call, stage, hi, hquiet.pending hp⟩⟩
    | true => exact ⟨o, ho.request hi hquiet hrequest⟩
  | @mark i call session hi hfree =>
    have hnone : o = none := by
      by_contra hne
      exact ho.present hne hfree
    have hnever : requests ts = [] := ho.fresh (by simp [hnone])
    refine ⟨some i, fun _ => by simp, ?_, ?_, ?_⟩
    · intro j call' stage hj hstage
      by_cases hji : j = i
      · rw [hji]
      · rw [hothers j (by simpa [Event.owner] using Ne.symm hji)] at hj
        cases hnone.symm.trans (ho.sole j call' stage hj hstage)
    · rw [requests_snoc rfl, hnever]
      exact Nat.zero_le _
    · rw [requests_snoc rfl, hnever]
      exact fun _ => rfl

/-! ### Runs -/

/-- What holds in every state that the processes can reach. -/
structure Registered (lib : Libraries) (json : MessageJson)
    (ts : List (Transition (Registry ι) (Event ι))) (s : Registry ι) : Prop where
  complete : Complete s
  stands : ∀ i call stage, s.processes i = some (call, stage) →
    Stands lib json ts s.directory i call stage
  owned : ∃ o, Owned ts s o

omit [DecidableEq ι] in
theorem Complete.put (h : Complete s) (name : String) (entry : Files.Entry Text) :
    Complete (s.put name entry) := by
  intro other hother
  by_cases hne : other = name
  · exact List.mem_cons.2 (.inl hne)
  · rw [put_directory, Directory.set_of_ne _ _ hne] at hother
    exact List.mem_cons_of_mem _ (h other hother)

omit [DecidableEq ι] in
theorem Complete.wrote {d : StateDir} {job : Job Char} {a : Action Char} {w : Writing Char}
    {p : Progress Char} (h : Complete s) (holds : job.Holds s.directory w)
    (hstep : job.step s.directory w a = some (d, p)) : Complete (s.wrote d job a) := by
  intro name hname
  rcases Job.step_names holds hstep hname with hold | rfl | ⟨hcreate, rfl⟩
  · exact List.mem_append_right _ (h name hold)
  · exact List.mem_append_left _ (List.mem_singleton_self name)
  · refine List.mem_append_left _ ?_
    cases a with
    | create temp => exact absurd rfl (hcreate temp)
    | _ => exact List.mem_singleton_self _

omit [DecidableEq ι] in
/-- The system call of a step of a write. -/
theorem Writes.job_step {d d' : StateDir} {a : Action Char} {job : Job Char}
    (h : Writes d call stage a d' stage') (hjob : jobOf call stage = some job)
    (hs : Stands lib json ts d i call stage) :
    ∃ w p, job.Holds d w ∧ job.step d w a = some (d', p) := by
  cases h with
  | response h | kept h | lost h =>
    obtain rfl := Option.some.inj hjob
    cases hs with
    | outside h => cases h
    | responding _ _ _ _ _ holds => exact ⟨_, _, holds, h⟩
  | saving h | saved h | unsaved h =>
    obtain rfl := Option.some.inj hjob
    cases hs with
    | outside h => cases h
    | saving _ _ _ _ holds => exact ⟨_, _, holds, h⟩

theorem Step.complete (h : Step lib json s e s') (hs : Registered lib json ts s) : Complete s' := by
  cases h with
  | start | quiet => exact hs.complete
  | mark | write | foreign => exact hs.complete.put _ _
  | disk hi hjob hw =>
    obtain ⟨w, p, holds, hstep⟩ := hw.job_step hjob (hs.stands _ _ _ hi)
    exact hs.complete.wrote holds hstep

/-- A step of another process keeps the files of the owner. -/
theorem Step.stands (h : Step lib json s e s') (hs : Registered lib json ts s) (i : ι)
    (call : RegisterCommand) (stage : RegisterStage) (hi : s'.processes i = some (call, stage)) :
    Stands lib json (ts ++ [⟨s, e, s'⟩]) s'.directory i call stage := by
  by_cases howner : e.owner = some i
  · exact h.own_stands howner hs.complete (fun call stage => hs.stands i call stage) hi
  · rw [h.others howner] at hi
    refine (hs.stands i call stage hi).frame h.isPrivate fun howns name entry hentry => ?_
    obtain ⟨o, ho⟩ := hs.owned
    refine h.keeps hentry fun j call' stage' hj hstage' hscratch => ?_
    -- a process that writes owns the attempt file, so there is no other
    have hsole := (ho.sole i call stage hi howns).symm.trans
      (ho.sole j call' stage' hstage' (RegisterStage.owns_of_scratch hscratch))
    exact howner (hj.trans hsole.symm)

theorem Registered.step (hs : Registered lib json ts s) (h : Step lib json s e s') :
    Registered lib json (ts ++ [⟨s, e, s'⟩]) s' := by
  obtain ⟨o, ho⟩ := hs.owned
  exact ⟨h.complete hs, h.stands hs, h.owned ho hs.stands⟩

theorem registered_of_run {d : StateDir} {names : List String}
    (hnames : ∀ name, d.entries name ≠ none → name ∈ names)
    (hrun : Run (step lib json) (initial d names) ts s) : Registered lib json ts s := by
  induction hrun with
  | nil =>
    refine ⟨hnames, by rintro i call stage ⟨⟩, none, by simp, by rintro i call stage ⟨⟩, ?_, ?_⟩
    · exact Nat.zero_le _
    · exact fun _ => rfl
  | snoc _ he ih => exact ih.step (Step.of_step he)

/-! ### A registration from beginning to end -/

theorem sorted_regions : SortedMap.Sorted ([] : List (Region × RegionConfig)) := .nil

def sampleCommand : RegisterCommand where
  config :=
    { session := Client.jpConfig
      accounts := some ⟨"accounts", none, .single⟩
      regions := ⟨[], sorted_regions⟩ }
  name := "worker.json"

def sampleAnswer : DynamicMessage := Registering.jpAnswer "player"

def sampleJson : MessageJson := Registering.jpAnswerJson "player"

abbrev sampleStep : Registry ℕ → Event ℕ → Option (Registry ℕ) := step sampleLibraries sampleJson

/-- A registration up to its response. -/
def answeredEvents : List (Event ℕ) :=
  [.start 0 sampleCommand, .list 0, .refresh 0, .refreshed 0 (.ok (none, none)), .mark 0,
    .write 0 attemptText, .sync 0, .check 0, .request 0, .answered 0 (.ok sampleAnswer),
    .disk 0 (.create ".a"), .disk 0 (.write (Registering.jpAnswerText "player")), .disk 0 .sync]

/-- The rest of the registration. -/
def savedEvents : List (Event ℕ) :=
  [.save 0, .disk 0 (.create ".b"),
    .disk 0 (.write (exportedCredentials Client.jpConfig ⟨"player", "token", none, none⟩)),
    .disk 0 .sync, .disk 0 .move]

theorem answered_isSome :
    (exec sampleStep (initial ⟨true, fun _ => none⟩ []) answeredEvents).isSome = true := by
  decide +kernel

/-- The directory with a response that has not got its name. -/
def answeredState : Registry ℕ := (exec sampleStep _ answeredEvents).get answered_isSome

theorem kept_isSome : (sampleStep answeredState (.disk 0 .move)).isSome = true := by decide +kernel

/-- The response gets its name. -/
def keptResponse : Transition (Registry ℕ) (Event ℕ) :=
  transitionOf sampleStep answeredState (.disk 0 .move) kept_isSome

theorem saved_isSome : (exec sampleStep keptResponse.after savedEvents).isSome = true := by
  decide +kernel

def savedState : Registry ℕ := (exec sampleStep _ savedEvents).get saved_isSome

/-- A registration that nothing disturbs. -/
def sampleRun : List (Transition (Registry ℕ) (Event ℕ)) :=
  transitions sampleStep (initial ⟨true, fun _ => none⟩ []) answeredEvents ++
    keptResponse :: transitions sampleStep keptResponse.after savedEvents

theorem run_sample : Run sampleStep (initial ⟨true, fun _ => none⟩ []) sampleRun savedState :=
  (run_get _ answered_isSome).append (run_transitionOf (run_get _ saved_isSome))

theorem no_names (name : String) :
    (⟨true, fun _ => none⟩ : StateDir).entries name ≠ none → name ∈ [] := by
  intro hname
  exact absurd rfl hname

/-! ### The requests -/

omit [DecidableEq ι] in
theorem Quiet.of_request {j : ι} (h : Quiet lib json s i call stage (.request j) stage') :
    i = j ∧ ∃ session, stage = .cleared session := by
  cases h with
  | refused _ hne => exact absurd rfl (hne j).1
  | requested => exact ⟨rfl, _, rfl⟩

omit [DecidableEq ι] in
theorem Quiet.of_refresh {j : ι} (h : Quiet lib json s i call stage (.refresh j) stage') :
    i = j ∧ stage = .listed := by
  cases h with
  | refused _ hne => exact absurd rfl (hne j).2
  | refresh => exact ⟨rfl, rfl⟩

/-- Only a process with a complete attempt file asks the game. -/
theorem cleared_of_request (h : s.step lib json (.request i) = some s') :
    ∃ call session, s.processes i = some (call, .cleared session) := by
  cases Step.of_step h with
  | quiet hi hquiet =>
    obtain ⟨rfl, session, rfl⟩ := hquiet.of_request
    exact ⟨_, session, hi⟩

theorem listed_of_refresh (h : s.step lib json (.refresh i) = some s') :
    ∃ call, s.processes i = some (call, .listed) := by
  cases Step.of_step h with
  | quiet hi hquiet =>
    obtain ⟨rfl, rfl⟩ := hquiet.of_refresh
    exact ⟨_, hi⟩

/-- **One registration.**  However many processes work on an accounts directory, and whenever each
of them stops, the game is asked for an account at most once.  The process that asks has found the
directory empty, and by then its attempt file is complete on disk. -/
theorem register_once {d : StateDir} {names : List String}
    (hnames : ∀ name, d.entries name ≠ none → name ∈ names)
    (hrun : Run (step lib json) (initial d names) ts s) :
    (requests ts).length ≤ 1 ∧
    ∀ before t after i, ts = before ++ t :: after → t.event = .request i →
      t.before.directory.entries attemptFile = some (.file true attemptText) ∧
      ∃ u ∈ before, u.event = .list i ∧ ∀ name, u.before.directory.entries name = none := by
  refine ⟨?_, ?_⟩
  · obtain ⟨o, ho⟩ := (registered_of_run hnames hrun).owned
    exact ho.once
  · rintro before t after i rfl he
    obtain ⟨hbefore, hstep, -⟩ := hrun.around
    rw [he] at hstep
    obtain ⟨call, session, hi⟩ := cleared_of_request hstep
    cases (registered_of_run hnames hbefore).stands i call _ hi with
    | outside h => cases h
    | cleared past => exact ⟨past.marked, past.entered.listed⟩

theorem register_once_sample :
    (requests sampleRun).length = 1 ∧
      ∀ before t after i, sampleRun = before ++ t :: after → t.event = .request i →
        t.before.directory.entries attemptFile = some (.file true attemptText) ∧
        ∃ u ∈ before, u.event = .list i ∧ ∀ name, u.before.directory.entries name = none :=
  ⟨by decide +kernel, (register_once no_names run_sample).2⟩

/-- In a directory with a file, a process that is outside stays there. -/
theorem Step.stays_outside (h : Step lib json s e s') (hcomplete : Complete s) {name : String}
    (hname : s.directory.entries name ≠ none)
    (hi : ∀ call stage, s.processes i = some (call, stage) → stage.outside = true) :
    ∀ call stage, s'.processes i = some (call, stage) → stage.outside = true := by
  intro call stage' hi'
  by_cases howner : e.owner = some i
  · cases h with
    | start =>
      cases howner
      cases hi'.symm.trans (Function.update_self _ _ _)
      rfl
    | quiet hj hquiet =>
      obtain rfl := Option.some.inj (howner.symm.trans hquiet.owner)
      cases hi'.symm.trans (Function.update_self _ _ _)
      have houtside := hi _ _ hj
      cases hquiet with
      | refused | crashed => rfl
      | listed _ hempty => exact absurd (hcomplete.empty hempty name) hname
      | _ => cases houtside
    | mark hj | write hj =>
      cases howner
      cases hi _ _ hj
    | disk hj hjob hw =>
      cases howner
      have houtside := hi _ _ hj
      cases hw <;> cases houtside
    | foreign => cases howner
  · rw [h.others howner] at hi'
    exact hi call stage' hi'

/-- A visible file stays. -/
theorem Registered.visible (hs : Registered lib json ts s) (h : Step lib json s e s')
    {name : String} (hvisible : isHidden name = false) (hname : s.directory.entries name ≠ none) :
    s'.directory.entries name ≠ none := by
  by_cases hattempt : name = attemptFile
  · subst hattempt
    exact h.present hs.stands hname
  · obtain ⟨entry, hentry⟩ := Option.ne_none_iff_exists'.1 hname
    rw [h.keeps_visible hs.stands hvisible hattempt hentry]
    simp

/-- **A directory in use.**  Once there is a visible file in the directory, whoever made it, a
process that has not started does not contact the game: it neither asks for the versions nor for an
account. -/
theorem occupied_refused {d : StateDir} {names : List String}
    (hnames : ∀ name, d.entries name ≠ none → name ∈ names)
    (hrun : Run (step lib json) (initial d names) ts s) {name : String}
    (hvisible : isHidden name = false) (hname : s.directory.entries name ≠ none)
    {i : ι} (hi : s.processes i = none) {us : List (Transition (Registry ι) (Event ι))}
    {u : Registry ι} (hlater : Run (step lib json) s us u) :
    u.directory.entries name ≠ none ∧
      ∀ t ∈ us, t.event ≠ .refresh i ∧ t.event ≠ .request i := by
  let Refused (m : Registry ι) : Prop :=
    (∃ ts, Registered lib json ts m) ∧ m.directory.entries name ≠ none ∧
      ∀ call stage, m.processes i = some (call, stage) → stage.outside = true
  have hkeeps : ∀ m e m', Refused m → step lib json m e = some m' → Refused m' := by
    rintro m e m' ⟨⟨ts, hm⟩, hentry, houtside⟩ h
    have hstep := Step.of_step h
    exact ⟨⟨_, hm.step hstep⟩, hm.visible hstep hvisible hentry,
      hstep.stays_outside hm.complete hentry houtside⟩
  have hstart : Refused s := by
    refine ⟨⟨ts, registered_of_run hnames hrun⟩, hname, ?_⟩
    intro call stage hstage
    cases hi.symm.trans hstage
  refine ⟨(hlater.invariant hkeeps hstart).2.1, ?_⟩
  intro t ht
  obtain ⟨-, -, houtside⟩ := (hlater.mem_invariant hkeeps hstart ht).1
  have hstep := hlater.step_of_mem ht
  constructor
  · intro he
    rw [he] at hstep
    obtain ⟨call, hj⟩ := listed_of_refresh hstep
    cases houtside call _ hj
  · intro he
    rw [he] at hstep
    obtain ⟨call, session, hj⟩ := cleared_of_request hstep
    cases houtside call _ hj

theorem late_isSome :
    (exec sampleStep savedState [.start 1 sampleCommand, .list 1]).isSome = true := by
  decide +kernel

theorem occupied_refused_sample :
    ((exec sampleStep savedState [.start 1 sampleCommand, .list 1]).get late_isSome).directory.entries
        attemptFile ≠ none ∧
      ∀ t ∈ transitions sampleStep savedState [.start 1 sampleCommand, .list 1],
        t.event ≠ .refresh 1 ∧ t.event ≠ .request 1 := by
  have hmarked : (savedState.directory.entries attemptFile).isSome = true := by decide +kernel
  have hidle : (savedState.processes 1).isNone = true := by decide +kernel
  exact occupied_refused no_names run_sample attemptFile_visible
    (Option.isSome_iff_ne_none.1 hmarked) (Option.isNone_iff_eq_none.1 hidle)
    (run_get _ late_isSome)

/-! ### The files -/

/-- **The files of a registration.**  When a process has registered, the directory has its three
files: the complete attempt file, the whole response that the game has given to it, and the
credentials that are read from this response; `StaticCredentials.fromFile` reads them back. -/
theorem registered_files (serde : Serde) {d : StateDir} {names : List String}
    (hnames : ∀ name, d.entries name ≠ none → name ∈ names)
    (hrun : Run (step lib json) (initial d names) ts s) {i : ι} {call : RegisterCommand}
    (hi : s.processes i = some (call, .finished (.ok ()))) :
    s.directory.entries attemptFile = some (.file true attemptText) ∧
    ∃ t ∈ ts, ∃ message raw created versions, t.event = .answered i (.ok message) ∧
      json.toVec message = some raw ∧
      s.directory.entries call.responseFile = some (.file true raw) ∧
      registeredCredentials lib (call.session versions) message = .ok created ∧
      StaticCredentials.fromFile serde s.directory call.name =
        .ok ⟨call.config.session.region, call.config.session.origin, created⟩ := by
  cases (registered_of_run hnames hrun).stands i call _ hi with
  | outside h => cases h
  | @finished session message created past stored hcreated hlen file =>
    obtain ⟨t, ht, he⟩ := stored.answered
    obtain ⟨raw, hraw, -, hresponse⟩ := stored.file
    obtain ⟨versions, rfl⟩ := past.session
    refine ⟨past.marked, t, ht, message, raw, created, versions, he, hraw, hresponse, hcreated, ?_⟩
    simp only [StaticCredentials.fromFile, Except.bind_eq_ok]
    refine ⟨_, secretRead_eq_ok.2 ⟨file, hlen⟩, ?_⟩
    rw [exportedCredentials, serde.credentialFile_json]
    rfl

/-- The process of the sample has registered. -/
def hasFinished : Option (RegisterCommand × RegisterStage) → Bool
  | some (call, .finished (.ok _)) => call.name = "worker.json"
  | _ => false

theorem exists_finished : ∃ call, call.name = "worker.json" ∧
    savedState.processes 0 = some (call, .finished (.ok ())) := by
  have h : hasFinished (savedState.processes 0) = true := by decide +kernel
  unfold hasFinished at h
  split at h
  · next call _ hstage => exact ⟨call, by simpa using h, hstage⟩
  · cases h

theorem registered_files_sample :
    ∃ saved,
      StaticCredentials.fromFile .compact savedState.directory "worker.json" = .ok saved := by
  obtain ⟨call, hname, hfinished⟩ := exists_finished
  obtain ⟨-, -, -, -, -, created, -, -, -, -, -, hread⟩ :=
    registered_files .compact no_names run_sample hfinished
  rw [hname] at hread
  exact ⟨_, hread⟩

/-- A response that is on disk stays there. -/
theorem response_stays (hs : Registered lib json ts s) (hplain : plainName call.name = true)
    {entry : Files.Entry Text} (hentry : s.directory.entries call.responseFile = some entry)
    {us : List (Transition (Registry ι) (Event ι))} {u : Registry ι}
    (hlater : Run (step lib json) s us u) :
    u.directory.isPrivate = s.directory.isPrivate ∧
      u.directory.entries call.responseFile = some entry := by
  let Keeps (m : Registry ι) : Prop :=
    (∃ ts, Registered lib json ts m) ∧ m.directory.isPrivate = s.directory.isPrivate ∧
      m.directory.entries call.responseFile = some entry
  have hkeeps : ∀ m e m', Keeps m → step lib json m e = some m' → Keeps m' := by
    rintro m e m' ⟨⟨ts, hm⟩, hprivate, hentry⟩ h
    have hstep := Step.of_step h
    exact ⟨⟨_, hm.step hstep⟩, hstep.isPrivate.trans hprivate,
      hstep.keeps_visible hm.stands (plainName.response_visible hplain)
        (plainName.distinct hplain).2.1 hentry⟩
  exact (hlater.invariant hkeeps ⟨⟨ts, hs⟩, rfl, hentry⟩).2

/-- In the JP region the metadata are made in the same way up to the master version. -/
theorem metadata_master {config : SessionConfig} (hjp : config.region = "jp") (auth : Credentials)
    (requestId : String) :
    config.metadata lib (some auth) requestId false =
      (SessionConfig.metadata lib { config with masterVersion := none, resourceVersion := none }
        (some auth) requestId false).bind fun map =>
          insertOptional lib map "x-master-version" config.masterVersion := by
  have hnone (map : Metadata) : insertOptional lib map "x-master-version" none = pure map := rfl
  show _ = _ >>= _
  simp only [SessionConfig.metadata, hjp, if_true, bind_assoc, pure_bind, hnone, bind_pure]

/-- The versions of a JP session have no part in what becomes of an answer, as long as the master
version can stand in a header. -/
theorem registeredCredentials_versions {config : SessionConfig} (hjp : config.region = "jp")
    {master : Option String} (hold : config.masterVersion.all lib.headerValue = true)
    (hnew : master.all lib.headerValue = true) (resource : Option String)
    (message : DynamicMessage) :
    registeredCredentials lib
        { config with masterVersion := master, resourceVersion := resource } message =
      registeredCredentials lib config message := by
  have hoptional {value : Option String} (hvalue : value.all lib.headerValue = true)
      (map : Metadata) : ∃ map', insertOptional lib map "x-master-version" value = .ok map' := by
    cases value with
    | none => exact ⟨map, rfl⟩
    | some v => exact ⟨map.put "x-master-version" v, if_pos hvalue⟩
  have hmetadata (auth : Credentials) :
      (SessionConfig.metadata lib
          { config with masterVersion := master, resourceVersion := resource } (some auth)
          "validation" false).map (fun _ => auth) =
        (config.metadata lib (some auth) "validation" false).map fun _ => auth := by
    have hjp' : { config with masterVersion := master, resourceVersion := resource }.region = "jp" :=
      hjp
    rw [metadata_master hjp, metadata_master hjp']
    cases SessionConfig.metadata lib { config with masterVersion := none, resourceVersion := none }
        (some auth) "validation" false with
    | error => rfl
    | ok map =>
      obtain ⟨_, hmap⟩ := hoptional hold map
      obtain ⟨_, hmap'⟩ := hoptional hnew map
      simp only [Except.bind, hmap, hmap', Except.map]
  unfold registeredCredentials
  simp only [hmetadata]

/-- **No response is lost.**  Once a process has put the answer of the game under its name, in every
later state an import under this name, with the same session in its configuration, does what the
process would have done with the answer: it fails with the error that the process would have made of
it, or saves the same credentials if the name is free.  This holds whatever has become of the process
and whatever other processes have done, while other programs remove nothing.  The master versions, the
configured one and the one of the process, can stand in a header (`valid_master` has checked both). -/
theorem response_recoverable {d : StateDir} {names : List String}
    (hnames : ∀ name, d.entries name ≠ none → name ∈ names)
    (hrun : Run (step lib json) (initial d names) ts s)
    {t : Transition (Registry ι) (Event ι)} (ht : t ∈ ts) {i : ι} {call : RegisterCommand}
    {session : SessionConfig} {message : DynamicMessage}
    (hkept : t.after.processes i = some (call, .kept session message))
    (hjson : ∀ raw, json.toVec message = some raw → json.deserialize raw = some message)
    {config : Config} (haccounts : config.accounts ≠ none)
    (hsession : config.session = call.config.session)
    (hvalid : config.session.validate lib = .ok ())
    (hconfigured : config.session.masterVersion.all lib.headerValue = true)
    (hfound : session.masterVersion.all lib.headerValue = true) :
    (∃ t ∈ ts, t.event = .answered i (.ok message)) ∧
    importRegistration json lib s.directory config call.name =
      (registeredCredentials lib session message).bind fun created =>
        saveCredentials session created s.directory call.name := by
  obtain ⟨a, b, rfl⟩ := List.append_of_mem ht
  obtain ⟨hbefore, hstep, hlater⟩ := hrun.around
  have hs := (registered_of_run hnames hbefore).step (Step.of_step hstep)
  cases hs.stands i call _ hkept with
  | outside h => cases h
  | kept past stored =>
    have hplain := past.entered.plain
    have hjp : config.session.region = "jp" := by
      have hpermitted := past.entered.permitted
      simp only [RegisterCommand.permitted, Bool.and_eq_true, decide_eq_true_eq] at hpermitted
      rw [hsession]
      exact hpermitted.1.1.1.1
    obtain ⟨raw, hraw, hlen, hfile⟩ := stored.file
    obtain ⟨hprivate, hresponse⟩ := response_stays hs hplain hfile hlater
    constructor
    · obtain ⟨t', ht', he⟩ := stored.answered
      refine ⟨t', ?_, he⟩
      simp only [List.mem_append, List.mem_singleton] at ht'
      rcases ht' with ht' | rfl
      · exact List.mem_append_left _ ht'
      · exact ht
    · obtain ⟨versions, rfl⟩ := past.session
      have hretained : Registering.Retained json (⟨0, 0, call.name, message⟩ : RegisterCall ℕ)
          s.directory := ⟨raw, hraw, hlen, hresponse⟩
      have hpermitted : s.directory.isPrivate = true := hprivate.trans stored.isPrivate
      calc
        importRegistration json lib s.directory config call.name
        _ = (registeredCredentials lib config.session message).bind fun created =>
            saveCredentials config.session created s.directory call.name := by
          rw [← Registering.import_of_retained hvalid hjp hjson hretained]
          simp only [importRegistration, privateDir, Except.refuse, hplain, hpermitted,
            Option.isNone_iff_eq_none, haccounts, if_false, Bool.true_eq_false, bind, Except.bind]
          rfl
        _ = (registeredCredentials lib (call.session versions) message).bind fun created =>
            saveCredentials (call.session versions) created s.directory call.name := by
          have hcreated : registeredCredentials lib (call.session versions) message =
              registeredCredentials lib config.session message := by
            rw [RegisterCommand.session, ← hsession]
            exact registeredCredentials_versions hjp hconfigured hfound versions.2 message
          have hsave (created : Credentials) :
              saveCredentials config.session created s.directory call.name =
                saveCredentials (call.session versions) created s.directory call.name := by
            rw [saveCredentials, saveCredentials, exportedCredentials, exportedCredentials, hsession,
              RegisterCommand.session]
          rw [hcreated, funext hsave]

/-- The response of the sample has its name, and the process has the session of the configuration. -/
def hasKept : Option (RegisterCommand × RegisterStage) → Bool
  | some (call, .kept session _) =>
    call.name = "worker.json" && session = Client.jpConfig && call.config.session = Client.jpConfig
  | _ => false

theorem exists_kept : ∃ call session message,
    keptResponse.after.processes 0 = some (call, .kept session message) ∧
      call.name = "worker.json" ∧ session = Client.jpConfig ∧
      call.config.session = Client.jpConfig := by
  have h : hasKept (keptResponse.after.processes 0) = true := by decide +kernel
  unfold hasKept at h
  split at h
  · next call session message hstage =>
    exact ⟨call, session, message, hstage, by simpa [and_assoc] using h⟩
  · cases h

/-- The process of the sample has got the sample answer. -/
theorem answer_of_kept {call : RegisterCommand} {session : SessionConfig} {message : DynamicMessage}
    (hkept : keptResponse.after.processes 0 = some (call, .kept session message)) :
    message = sampleAnswer := by
  have hrun : Run sampleStep (initial ⟨true, fun _ => none⟩ [])
      (transitions sampleStep (initial ⟨true, fun _ => none⟩ []) answeredEvents ++ [keptResponse])
      keptResponse.after := (run_get _ answered_isSome).append (run_transitionOf .nil)
  cases (registered_of_run no_names hrun).stands 0 call _ hkept with
  | outside h => cases h
  | kept past stored =>
    obtain ⟨t, ht, he⟩ := stored.answered
    rcases List.mem_append.1 ht with ht | ht
    · have hmem := event_mem_of_transitions ht
      rw [he] at hmem
      simpa [answeredEvents] using hmem
    · obtain rfl := List.mem_singleton.1 ht
      cases he

theorem response_recoverable_sample :
    importRegistration sampleJson sampleLibraries savedState.directory sampleCommand.config
        "worker.json" =
      (registeredCredentials sampleLibraries Client.jpConfig sampleAnswer).bind fun created =>
        saveCredentials Client.jpConfig created savedState.directory "worker.json" := by
  obtain ⟨call, session, message, hkept, hname, rfl, hsession⟩ := exists_kept
  obtain rfl := answer_of_kept hkept
  have haccounts : sampleCommand.config.accounts ≠ none := by simp [sampleCommand]
  have himport := (response_recoverable no_names run_sample (by simp [sampleRun]) hkept
    (fun _ _ => rfl) haccounts hsession.symm rfl rfl rfl).2
  rwa [hname] at himport

end Registry

end MoenotesApi
