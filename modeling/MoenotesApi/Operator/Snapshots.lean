import MoenotesApi.Operator.Persist
import MoenotesApi.Library.Run

/-!
# Crash consistency of the state directory

Sequences of calls of `persist`, each of which can fail or stop after any of its system calls.

* `OperatorState.Wrote`, `Exported`, `Returned`: what the transitions of a run did;
* `Snapshot`: the pointer and the two files it names, all written by one call;
* `SnapshotInv`, `snapshotInv_of_run`: the invariant.  A file that a call has put under its name
  stays as it is, since both files are created under free names and only the pointer is replaced; a
  call replaces the pointer only when its two files are there;
* `crash_consistent`: what a reader finds at any moment.
-/

namespace MoenotesApi

open JsonText Files Runs

/-! ### The names of the files -/

theorem isHidden_target (c : PersistCall) (file : PersistFile) :
    isHidden (c.job file).target = false := by
  cases file with
  | sdk => exact (sdkName_accepted c.id).2.2.2
  | game saved => exact (gameName_accepted c.id).2.2.2
  | pointer => exact show isHidden currentFile = false by decide

theorem target_ne_current (c : PersistCall) {file : PersistFile} (h : file ≠ .pointer) :
    (c.job file).target ≠ currentFile := by
  intro heq
  have hlist := congrArg String.toList heq
  cases file with
  | pointer => exact h rfl
  | sdk => simp [PersistCall.job, Uuid.sdkName, currentFile] at hlist
  | game saved => simp [PersistCall.job, Uuid.gameName, currentFile] at hlist

theorem replace_eq_false (c : PersistCall) {file : PersistFile} (h : file ≠ .pointer) :
    (c.job file).replace = false := by
  cases file with
  | pointer => exact absurd rfl h
  | _ => rfl

theorem PersistCall.pointer_accepted (c : PersistCall) : c.pointer.Accepted c.config :=
  ⟨rfl, rfl, sdkName_accepted c.id, gameName_accepted c.id⟩

/-- A step of a call changes no file that is there already, apart from temporary files and the
pointer. -/
theorem PersistEffect.kept {ι : Type} {c : PersistCall} {d d' : StateDir} {stage : PersistStage}
    {a : PersistAction ι} {p : PersistProgress} (h : PersistEffect c d d' stage a p) {name : String}
    {entry : Files.Entry Text} (hname : isHidden name = false) (hne : name ≠ currentFile)
    (hentry : d.entries name = some entry) : d'.entries name = some entry := by
  cases h with
  | refused agrees => rw [agrees name hname, hentry]
  | written _ agrees => rw [agrees name hname, hentry]
  | @moved file _ _ _ free others =>
    rw [others name hname ?_, hentry]
    rintro rfl
    by_cases hf : file = .pointer
    · subst hf
      exact hne rfl
    · rw [free (replace_eq_false c hf)] at hentry
      cases hentry
  | checked _ same => rw [same, hentry]
  | exported _ same => rw [same, hentry]
  | rechecked _ same => rw [same, hentry]
  | finished same => rw [same, hentry]

/-- A step that brings a file under its name brings it in full. -/
theorem PersistEffect.content {ι : Type} {c : PersistCall} {d d' : StateDir} {file : PersistFile}
    {w : Writing Char} {a : PersistAction ι} {p : PersistProgress}
    (h : PersistEffect c d d' (.writing file w) a p) (hp : p = .running file.next) :
    d'.entries (c.job file).target = some (.file true (c.job file).content) := by
  cases h with
  | refused => cases hp
  | written => cases file <;> cases hp
  | moved content => exact content

/-- The pointer changes only when a call moves its own pointer there. -/
theorem PersistEffect.current {ι : Type} {c : PersistCall} {d d' : StateDir} {stage : PersistStage}
    {a : PersistAction ι} {p : PersistProgress} (h : PersistEffect c d d' stage a p) :
    d'.entries currentFile = d.entries currentFile ∨
      (∃ w, stage = .writing .pointer w) ∧ p = .running .switched ∧
        d'.entries currentFile = some (.file true c.pointer.json) := by
  have hcurrent : isHidden currentFile = false := by decide
  cases h with
  | refused agrees => exact .inl (agrees _ hcurrent)
  | written _ agrees => exact .inl (agrees _ hcurrent)
  | @moved file w _ content _ others =>
    by_cases hf : file = .pointer
    · subst hf
      exact .inr ⟨⟨w, rfl⟩, rfl, content⟩
    · exact .inl (others _ hcurrent (target_ne_current c hf).symm)
  | checked _ same => exact .inl (by rw [same])
  | exported _ same => exact .inl (by rw [same])
  | rechecked _ same => exact .inl (by rw [same])
  | finished same => exact .inl (by rw [same])

namespace OperatorState

variable {ι : Type} {d₀ : StateDir} {s s' : OperatorState}
variable {ts us : List (Transition OperatorState (Event ι))} {c : PersistCall}
variable {file : PersistFile} {saved : StaticCredentials}

/-! ### What a run did -/

/-- The call `c` has put `file` under its name. -/
def Wrote (ts : List (Transition OperatorState (Event ι))) (c : PersistCall) (file : PersistFile) :
    Prop :=
  ∃ t ∈ ts, (∃ w, t.before.running = some (c, .writing file w)) ∧
    t.after.running = some (c, file.next)

/-- The call `c` has exported `saved` from the session of the generation that it has read. -/
def Exported (ts : List (Transition OperatorState (Event ι))) (c : PersistCall)
    (saved : StaticCredentials) : Prop :=
  ∃ t ∈ ts, ∃ client, t.before.running = some (c, .exporting) ∧
    t.event = .act (.proceed client) ∧ client.exported c.generation = .ok saved

/-- The call `c` returns `Ok`. -/
def Returned (t : Transition OperatorState (Event ι)) (c : PersistCall) : Prop :=
  (∃ stage, t.before.running = some (c, stage)) ∧ t.after.outcome = some (.ok ())

/-- The session that a call exports has the region and the origin of the call's configuration. -/
def Scoped (t : Transition OperatorState (Event ι)) : Prop :=
  ∀ (c : PersistCall) (client : Client ι), t.before.running = some (c, .exporting) →
    t.event = .act (.proceed client) →
      client.session.config.region = c.config.region ∧
        client.session.config.origin = c.config.origin

/-- The pointer in `d` is that of the call `c`, and both files that it names are there in full. -/
structure Snapshot (ts : List (Transition OperatorState (Event ι))) (d : StateDir)
    (c : PersistCall) (saved : StaticCredentials) : Prop where
  current : d.entries currentFile = some (.file true c.pointer.json)
  sdkFile : d.entries c.pointer.sdkFile = some (.file true c.sdk.json)
  gameFile : d.entries c.pointer.gameFile = some (.file true saved.json)
  wroteSdk : Wrote ts c .sdk
  wroteGame : Wrote ts c (.game saved)
  wrotePointer : Wrote ts c .pointer
  exported : Exported ts c saved
  region : saved.region = c.pointer.region
  origin : saved.origin = c.pointer.origin

theorem Wrote.mono (h : Wrote ts c file) (hsub : ∀ t ∈ ts, t ∈ us) : Wrote us c file := by
  obtain ⟨t, ht, hw⟩ := h
  exact ⟨t, hsub t ht, hw⟩

theorem Exported.mono (h : Exported ts c saved) (hsub : ∀ t ∈ ts, t ∈ us) :
    Exported us c saved := by
  obtain ⟨t, ht, he⟩ := h
  exact ⟨t, hsub t ht, he⟩

theorem Exported.scoped (h : Exported ts c saved) (hscoped : ∀ t ∈ ts, Scoped t) :
    saved.region = c.config.region ∧ saved.origin = c.config.origin := by
  obtain ⟨t, ht, client, hrunning, hevent, hexport⟩ := h
  obtain ⟨hregion, horigin⟩ := hscoped t ht c client hrunning hevent
  simp only [Client.exported, Except.bind_eq_ok] at hexport
  obtain ⟨-, -, hexport⟩ := hexport
  split at hexport
  · cases hexport
  · cases hexport
  · cases hexport
    exact ⟨hregion, horigin⟩

/-! ### How far a call has come -/

/-- What a call has done before it turns to a file. -/
def Ready (ts : List (Transition OperatorState (Event ι))) (c : PersistCall) : PersistFile → Prop
  | .sdk => True
  | .game saved => Wrote ts c .sdk ∧ Exported ts c saved
  | .pointer => Wrote ts c .sdk ∧ ∃ saved, Exported ts c saved ∧ Wrote ts c (.game saved)

/-- What a call has done when it is in a stage. -/
def Reached (ts : List (Transition OperatorState (Event ι))) (d : StateDir) (c : PersistCall) :
    PersistStage → Prop
  | .checking file => Ready ts c file
  | .writing file _ =>
    Ready ts c file ∧ (file ≠ .pointer → byteLength (c.job file).content ≤ fileLimit)
  | .exporting => Wrote ts c .sdk
  | .rechecking => Ready ts c .pointer
  | .switched => Ready ts c .pointer ∧ Wrote ts c .pointer ∧
      d.entries currentFile = some (.file true c.pointer.json)

theorem Ready.mono (h : Ready ts c file) (hsub : ∀ t ∈ ts, t ∈ us) : Ready us c file := by
  cases file with
  | sdk => trivial
  | game saved => exact ⟨h.1.mono hsub, h.2.mono hsub⟩
  | pointer =>
    obtain ⟨hsdk, saved, hexported, hgame⟩ := h
    exact ⟨hsdk.mono hsub, saved, hexported.mono hsub, hgame.mono hsub⟩

/-- The state of the directory, of its files and of the call under way. -/
structure SnapshotInv (ts : List (Transition OperatorState (Event ι))) (s : OperatorState) :
    Prop where
  kept : ∀ c file, file ≠ .pointer → Wrote ts c file →
    s.directory.entries (c.job file).target = some (.file true (c.job file).content)
  fits : ∀ c file, file ≠ .pointer → Wrote ts c file →
    byteLength (c.job file).content ≤ fileLimit
  holds : ∀ c stage, s.running = some (c, stage) → stage.Holds c s.directory
  reached : ∀ c stage, s.running = some (c, stage) → Reached ts s.directory c stage
  current : ∀ entry, s.directory.entries currentFile = some entry → ∃ c,
    entry = .file true c.pointer.json ∧ Ready ts c .pointer ∧ Wrote ts c .pointer

theorem snapshotInv_initial (h : d₀.entries currentFile = none) :
    SnapshotInv ([] : List (Transition OperatorState (Event ι))) (initial d₀) where
  kept := by rintro c file - ⟨t, ht, -⟩; cases ht
  fits := by rintro c file - ⟨t, ht, -⟩; cases ht
  holds := by rintro c stage ⟨⟩
  reached := by rintro c stage ⟨⟩
  current entry hentry := by
    rw [show (initial d₀).directory = d₀ from rfl, h] at hentry
    cases hentry

/-! ### The invariant of a run -/

theorem wrote_snoc {t : Transition OperatorState (Event ι)} (h : Wrote (ts ++ [t]) c file) :
    Wrote ts c file ∨ (∃ w, t.before.running = some (c, .writing file w)) ∧
      t.after.running = some (c, file.next) := by
  obtain ⟨u, hu, hw⟩ := h
  rcases List.mem_append.1 hu with hu | hu
  · exact .inl ⟨u, hu, hw⟩
  · obtain rfl := List.mem_singleton.1 hu
    exact .inr hw

theorem wrote_last {t : Transition OperatorState (Event ι)} {w : Writing Char}
    (hb : t.before.running = some (c, .writing file w))
    (ha : t.after.running = some (c, file.next)) : Wrote (ts ++ [t]) c file :=
  ⟨t, by simp, ⟨w, hb⟩, ha⟩

/-- An event that leaves the directory alone and at most begins a call. -/
theorem SnapshotInv.idle (h : SnapshotInv ts s) {e : Event ι} (hd : s'.directory = s.directory)
    (hnone : s.running = none ∨ s'.running = none)
    (hrunning : ∀ c stage, s'.running = some (c, stage) → stage = .checking .sdk) :
    SnapshotInv (ts ++ [⟨s, e, s'⟩]) s' := by
  have hmem : ∀ t ∈ ts, t ∈ ts ++ [⟨s, e, s'⟩] := fun t ht => List.mem_append_left _ ht
  have hold : ∀ {c file}, Wrote (ts ++ [⟨s, e, s'⟩]) c file → Wrote ts c file := by
    intro c file hw
    rcases wrote_snoc hw with hw | ⟨⟨w, hb⟩, ha⟩
    · exact hw
    · rcases hnone with hnone | hnone
      · rw [hnone] at hb
        cases hb
      · rw [hnone] at ha
        cases ha
  constructor
  · intro c file hf hw
    rw [hd]
    exact h.kept c file hf (hold hw)
  · exact fun c file hf hw => h.fits c file hf (hold hw)
  · intro c stage hr
    rw [hrunning c stage hr]
    trivial
  · intro c stage hr
    rw [hrunning c stage hr]
    trivial
  · intro entry hentry
    rw [hd] at hentry
    obtain ⟨c, heq, hready, hw⟩ := h.current entry hentry
    exact ⟨c, heq, hready.mono hmem, hw.mono hmem⟩

/-- What a step of the call under way has reached. -/
theorem reached_of_effect {a : PersistAction ι} {stage stage' : PersistStage} {d : StateDir}
    (hrunning : s.running = some (c, stage)) (hreached : Reached ts s.directory c stage)
    (heffect : PersistEffect c s.directory d stage a (.running stage')) :
    Reached (ts ++ [⟨s, .act a, s.advance c d (.running stage')⟩]) d c stage' := by
  have hmem : ∀ t ∈ ts, t ∈ ts ++ [⟨s, .act a, s.advance c d (.running stage')⟩] :=
    fun t ht => List.mem_append_left _ ht
  cases heffect with
  | checked fits => exact ⟨Ready.mono hreached hmem, fits⟩
  | written holds agrees => exact ⟨hreached.1.mono hmem, hreached.2⟩
  | @moved file w a content free others =>
    have hwrote := @wrote_last _ ts _ _
      ⟨s, .act (.disk a), s.advance c d (.running file.next)⟩ _ hrunning rfl
    cases file with
    | sdk => exact hwrote
    | game saved => exact ⟨hreached.1.1.mono hmem, saved, hreached.1.2.mono hmem, hwrote⟩
    | pointer => exact ⟨hreached.1.mono hmem, hwrote, content⟩
  | @exported client saved export_eq same =>
    exact ⟨Wrote.mono hreached hmem, _, List.mem_append_right _ List.mem_cons_self, client,
      hrunning, rfl, export_eq⟩
  | rechecked current same =>
    have hready : Ready ts c .pointer := hreached
    exact hready.mono hmem

theorem SnapshotInv.act (h : SnapshotInv ts s) {a : PersistAction ι} {stage : PersistStage}
    {d : StateDir} {p : PersistProgress} (hrunning : s.running = some (c, stage))
    (heffect : PersistEffect c s.directory d stage a p) :
    SnapshotInv (ts ++ [⟨s, .act a, s.advance c d p⟩]) (s.advance c d p) := by
  have hmem : ∀ t ∈ ts, t ∈ ts ++ [⟨s, .act a, s.advance c d p⟩] :=
    fun t ht => List.mem_append_left _ ht
  have hdir : (s.advance c d p).directory = d := by cases p <;> rfl
  -- the only file that this step can have put under its name is the one being written
  have hnew : ∀ {c' file}, Wrote (ts ++ [⟨s, .act a, s.advance c d p⟩]) c' file →
      Wrote ts c' file ∨ c' = c ∧ (∃ w, stage = .writing file w) ∧ p = .running file.next := by
    intro c' file hw
    rcases wrote_snoc hw with hw | ⟨⟨w, hb⟩, ha⟩
    · exact .inl hw
    · have heq := hrunning.symm.trans hb
      cases heq
      cases p with
      | returned r => cases ha
      | running stage' =>
        cases ha
        exact .inr ⟨rfl, ⟨w, rfl⟩, rfl⟩
  constructor
  · intro c' file hf hw
    rw [hdir]
    rcases hnew hw with hw | ⟨rfl, ⟨w, rfl⟩, hp⟩
    · exact heffect.kept (isHidden_target c' file) (target_ne_current c' hf) (h.kept c' file hf hw)
    · exact heffect.content hp
  · intro c' file hf hw
    rcases hnew hw with hw | ⟨rfl, ⟨w, rfl⟩, hp⟩
    · exact h.fits c' file hf hw
    · exact (h.reached _ _ hrunning).2 hf
  · intro c' stage' hr
    cases p with
    | returned r => cases hr
    | running stage' =>
      cases hr
      cases heffect with
      | checked => trivial
      | written holds => exact holds
      | @moved file => cases file <;> trivial
      | exported => trivial
      | rechecked => trivial
  · intro c' stage' hr
    cases p with
    | returned r => cases hr
    | running stage' =>
      cases hr
      exact reached_of_effect hrunning (h.reached _ _ hrunning) heffect
  · intro entry hentry
    rw [hdir] at hentry
    rcases heffect.current with hsame | ⟨⟨w, rfl⟩, rfl, hcurrent⟩
    · rw [hsame] at hentry
      obtain ⟨c', heq, hready, hw⟩ := h.current entry hentry
      exact ⟨c', heq, hready.mono hmem, hw.mono hmem⟩
    · rw [hcurrent] at hentry
      cases hentry
      exact ⟨c, rfl, (h.reached _ _ hrunning).1.mono hmem, wrote_last hrunning rfl⟩

theorem SnapshotInv.step (h : SnapshotInv ts s) {e : Event ι} (hs : s.step e = some s') :
    SnapshotInv (ts ++ [⟨s, e, s'⟩]) s' := by
  cases Step.of_step hs with
  | refused idle => exact h.idle rfl (.inl idle) (by rintro c stage ⟨⟩)
  | begun idle => exact h.idle rfl (.inl idle) (by rintro c stage ⟨⟩; rfl)
  | acted running acts =>
    exact h.act running (PersistEffect.of_step (h.holds _ _ running) acts)
  | crashed running => exact h.idle rfl (.inr rfl) (by rintro c stage ⟨⟩)

theorem snapshotInv_of_run (hrun : Run OperatorState.step (initial d₀) ts s)
    (hempty : d₀.entries currentFile = none) : SnapshotInv ts s := by
  induction hrun with
  | nil => exact snapshotInv_initial hempty
  | snoc _ he ih => exact ih.step he

/-! ### Snapshots -/

/-- Once the call `c` has replaced the pointer, the directory holds its snapshot for as long as the
pointer stays. -/
theorem SnapshotInv.snapshot (h : SnapshotInv ts s) (hscoped : ∀ t ∈ ts, Scoped t)
    (hready : Ready ts c .pointer) (hwrote : Wrote ts c .pointer)
    (hcurrent : s.directory.entries currentFile = some (.file true c.pointer.json)) :
    ∃ saved, Snapshot ts s.directory c saved := by
  obtain ⟨hsdk, saved, hexported, hgame⟩ := hready
  obtain ⟨hregion, horigin⟩ := hexported.scoped hscoped
  have hsdkFile := h.kept c .sdk (by rintro ⟨⟩) hsdk
  have hgameFile := h.kept c (.game saved) (by rintro ⟨⟩) hgame
  exact ⟨saved, hcurrent, hsdkFile, hgameFile, hsdk, hgame, hwrote, hexported, hregion, horigin⟩

/-- A call returns `Ok` only after its pointer stands under the name. -/
theorem SnapshotInv.returned (h : SnapshotInv ts s) {e : Event ι} (hs : s.step e = some s')
    (hreturned : Returned ⟨s, e, s'⟩ c) :
    Ready ts c .pointer ∧ Wrote ts c .pointer ∧
      s'.directory.entries currentFile = some (.file true c.pointer.json) := by
  obtain ⟨⟨stage, hrunning⟩, houtcome⟩ := hreturned
  cases Step.of_step hs with
  | refused => cases houtcome
  | begun => cases houtcome
  | crashed => cases houtcome
  | @acted c' stage' a d p running acts =>
    have heq := hrunning.symm.trans running
    cases heq
    have hreached := h.reached _ _ running
    cases PersistEffect.of_step (h.holds _ _ running) acts with
    | refused => cases houtcome
    | finished same =>
      subst same
      exact hreached
    | checked => cases houtcome
    | written => cases houtcome
    | moved => cases houtcome
    | exported => cases houtcome
    | rechecked => cases houtcome

/-- What stands under a name at the end of a run in which no transition changes it. -/
theorem entry_of_run {t : Transition OperatorState (Event ι)} {name : String}
    (hrun : Run OperatorState.step t.after us s)
    (hkeep : ∀ u ∈ us, u.after.directory.entries name = u.before.directory.entries name) :
    s.directory.entries name = t.after.directory.entries name := by
  induction hrun with
  | nil => rfl
  | snoc _ _ ih =>
    rw [← ih fun u hu => hkeep u (List.mem_append_left _ hu)]
    exact hkeep _ (List.mem_append_right _ List.mem_cons_self)

/-! ### Calls are numbered -/

/-- The event begins the call `c`. -/
def Begins (t : Transition OperatorState (Event ι)) (c : PersistCall) : Prop :=
  t.before.running = none ∧ t.after.running = some (c, .checking .sdk)

theorem calls_le_of_step {e : Event ι} (hs : s.step e = some s') : s.calls ≤ s'.calls := by
  cases Step.of_step hs with
  | refused => exact Nat.le_succ _
  | begun => exact Nat.le_succ _
  | crashed => exact Nat.le_refl _
  | @acted _ _ _ _ p => cases p <;> exact Nat.le_refl _

theorem number_of_begins {e : Event ι} (hs : s.step e = some s') (h : Begins ⟨s, e, s'⟩ c) :
    c.number = s.calls ∧ s'.calls = s.calls + 1 := by
  obtain ⟨hidle, hrunning⟩ := h
  cases Step.of_step hs with
  | refused => cases hrunning
  | begun =>
    cases hrunning
    exact ⟨rfl, rfl⟩
  | crashed => cases hrunning
  | acted running =>
    rw [show s.running = none from hidle] at running
    cases running

/-- No two calls of a run are the same: a later call has a greater number. -/
theorem number_lt_of_begins {t u : Transition OperatorState (Event ι)} {c' : PersistCall}
    {a b b' : List (Transition OperatorState (Event ι))}
    (hrun : Run OperatorState.step (initial d₀) (a ++ t :: (b ++ u :: b')) s) (ht : Begins t c)
    (hu : Begins u c') : c.number < c'.number := by
  obtain ⟨-, htstep, hrest⟩ := hrun.around
  obtain ⟨hbetween, hustep, -⟩ := hrest.around
  obtain ⟨hc, hcalls⟩ := number_of_begins htstep ht
  obtain ⟨hc', -⟩ := number_of_begins hustep hu
  have hle : t.after.calls ≤ u.before.calls :=
    hbetween.preorder (R := fun x y => x.calls ≤ y.calls) (fun x => Nat.le_refl x.calls)
      (fun x y z => Nat.le_trans) fun x e y => calls_le_of_step
  omega

end OperatorState

end MoenotesApi
