import MoenotesApi.Operator.LoginOnce
import MoenotesApi.Operator.Snapshots

/-!
# A recovery keeps the account

Which account `current.json` stands for before, during and after a call of `recover`.

* `References`: the credentials that the pointer of a directory leads to;
* `Known`, `known_of_run`: what a call knows about the snapshot it has loaded, from stage to stage;
* `Settled`, `settled_of_run`: the directory and the session in memory.  Up to the comparison after the
  login the directory has at most a new lock file; from then on the session in memory has the
  identity of the loaded snapshot, and what `persist` exports is that session;
* `recovery_keeps_identity`.
-/

namespace MoenotesApi

open JsonText Files Runs

/-! ### Snapshots of a directory -/

/-- The pointer of the directory is `p`, and its game file holds `saved`. -/
def RefersBy (serde : Serde) (d : StateDir) (p : Pointer) (saved : StaticCredentials) : Prop :=
  (∃ isPrivate text, d.entries currentFile = some (.file isPrivate text) ∧
    serde.pointer text = some p) ∧
  ∃ isPrivate text, d.entries p.gameFile = some (.file isPrivate text) ∧
    serde.credentialFile text = some saved

/-- `current.json` references a snapshot with the credentials `saved`. -/
def References (serde : Serde) (d : StateDir) (saved : StaticCredentials) : Prop :=
  ∃ p, RefersBy serde d p saved

/-- `References`, by a pointer whose game file has a name that the readers accept. -/
def Names (serde : Serde) (d : StateDir) (saved : StaticCredentials) : Prop :=
  ∃ p, AcceptedName p.gameFile ∧ RefersBy serde d p saved

section Snapshots

variable {serde : Serde} {d d' : StateDir} {p : Pointer} {saved saved' : StaticCredentials}

theorem Names.references (h : Names serde d saved) : References serde d saved := by
  obtain ⟨p, -, h⟩ := h
  exact ⟨p, h⟩

theorem References.unique (h : References serde d saved) (h' : References serde d saved') :
    saved' = saved := by
  obtain ⟨p, ⟨b, text, hcurrent, hp⟩, b', text', hgame, hsaved⟩ := h
  obtain ⟨p', ⟨c, word, hcurrent', hp'⟩, c', word', hgame', hsaved'⟩ := h'
  rw [hcurrent] at hcurrent'
  cases hcurrent'
  rw [hp] at hp'
  cases hp'
  rw [hgame] at hgame'
  cases hgame'
  rw [hsaved] at hsaved'
  cases hsaved'
  rfl

theorem RefersBy.of_entries (h : RefersBy serde d p saved)
    (hcurrent : d'.entries currentFile = d.entries currentFile)
    (hgame : d'.entries p.gameFile = d.entries p.gameFile) : RefersBy serde d' p saved := by
  obtain ⟨⟨b, text, hentry, hp⟩, b', text', hentry', hsaved⟩ := h
  exact ⟨⟨b, text, hcurrent.trans hentry, hp⟩, b', text', hgame.trans hentry', hsaved⟩

theorem names_of_credentials {config : SessionConfig}
    (h : LoginConfig.credentials serde d config = .ok (some saved)) : Names serde d saved := by
  unfold LoginConfig.credentials at h
  split at h
  · cases h
  · cases h
  · next isPrivate text hentry =>
    simp only [Except.bind_eq_ok, Except.pure_eq_ok, Option.some.injEq] at h
    obtain ⟨p, hp, saved', hsaved, rfl⟩ := h
    simp only [LoginConfig.pointer, Except.bind_eq_ok] at hp
    obtain ⟨bytes, hbytes, hp⟩ := hp
    obtain ⟨hcurrent, -⟩ := secretRead_eq_ok.1 hbytes
    cases hparse : serde.pointer bytes with
    | none =>
      rw [hparse] at hp
      cases hp
    | some p' =>
      rw [hparse] at hp
      simp only [Except.bind_eq_ok, Except.refuse_eq_ok, Except.pure_eq_ok, not_not] at hp
      obtain ⟨-, haccepted, rfl⟩ := hp
      simp only [StaticCredentials.fromFile, Except.bind_eq_ok] at hsaved
      obtain ⟨input, hinput, hsaved⟩ := hsaved
      obtain ⟨hgame, -⟩ := secretRead_eq_ok.1 hinput
      cases hfile : serde.credentialFile input with
      | none =>
        rw [hfile] at hsaved
        cases hsaved
      | some parsed =>
        rw [hfile] at hsaved
        cases hsaved
        exact ⟨p', haccepted.2.2.2, ⟨true, bytes, hcurrent, hparse⟩, true, input, hgame, hfile⟩

end Snapshots

/-! ### The lock file -/

/-- The directory has at most a new lock file. -/
def Locked (d d' : StateDir) : Prop :=
  d' = d ∨ d.entries lockFile = none ∧ d' = d.set lockFile (some (.file true []))

theorem LoginConfig.locked_of_lock {d d' : StateDir} {outcome : LockOutcome}
    {result : Except ClientError Unit} (h : LoginConfig.lock d outcome = (d', result)) :
    Locked d d' := by
  unfold LoginConfig.lock at h
  split at h
  · cases h
    exact .inl rfl
  · split at h
    · cases h
      exact .inl rfl
    · cases h
      exact .inl rfl
    · cases h
      exact .inl rfl
    · cases h
      exact .inl rfl
    · next hnone =>
      cases h
      exact .inr ⟨hnone, rfl⟩
    · next hnone =>
      cases h
      exact .inr ⟨hnone, rfl⟩

theorem AcceptedName.ne_lockFile {name : String} (h : AcceptedName name) : name ≠ lockFile := by
  rintro rfl
  exact absurd h (by decide)

theorem Locked.trans {d d' d'' : StateDir} (h : Locked d d') (h' : Locked d' d'') :
    Locked d d'' := by
  rcases h with rfl | ⟨hnone, rfl⟩
  · exact h'
  · rcases h' with rfl | ⟨hnone', -⟩
    · exact .inr ⟨hnone, rfl⟩
    · rw [Directory.set_self] at hnone'
      cases hnone'

theorem Locked.entry {d d' : StateDir} (h : Locked d d') {name : String} (hne : name ≠ lockFile) :
    d'.entries name = d.entries name := by
  rcases h with rfl | ⟨-, rfl⟩
  · rfl
  · exact Directory.set_of_ne _ _ hne

/-- What is there stays there. -/
theorem Locked.kept {d d' : StateDir} (h : Locked d d') {name : String} {entry : Files.Entry Text}
    (hentry : d.entries name = some entry) : d'.entries name = some entry := by
  rcases h with rfl | ⟨hnone, rfl⟩
  · exact hentry
  · rw [Directory.set_of_ne, hentry]
    rintro rfl
    rw [hnone] at hentry
    cases hentry

theorem Locked.names_iff {serde : Serde} {d d' : StateDir} (h : Locked d d')
    {saved : StaticCredentials} : Names serde d' saved ↔ Names serde d saved := by
  have hcurrent := h.entry (show currentFile ≠ lockFile by decide)
  constructor
  · rintro ⟨p, hp, hrefers⟩
    exact ⟨p, hp, hrefers.of_entries hcurrent.symm (h.entry hp.ne_lockFile).symm⟩
  · rintro ⟨p, hp, hrefers⟩
    exact ⟨p, hp, hrefers.of_entries hcurrent (h.entry hp.ne_lockFile)⟩

theorem Locked.references {serde : Serde} {d d' : StateDir} (h : Locked d d')
    {saved : StaticCredentials} (href : References serde d saved) : References serde d' saved := by
  obtain ⟨p, ⟨b, text, hcurrent, hp⟩, b', text', hgame, hsaved⟩ := href
  exact ⟨p, ⟨b, text, h.kept hcurrent, hp⟩, b', text', h.kept hgame, hsaved⟩

/-! ### Saving the session in memory -/

/-- The game file of `call` holds the given credentials. -/
def SavedAs (d : StateDir) (call : PersistCall) (credentials : Credentials) : Prop :=
  ∃ saved : StaticCredentials, d.entries call.id.gameName = some (.file true saved.json) ∧
    saved.credentials = credentials

/-- The directory while `call` saves the given credentials over the snapshot `saved`. -/
def Saving (serde : Serde) (d : StateDir) (call : PersistCall) (credentials : Credentials)
    (saved : StaticCredentials) : PersistStage → Prop
  | .checking .sdk | .writing .sdk _ | .exporting => Names serde d saved
  | .checking (.game exported) | .writing (.game exported) _ =>
    Names serde d saved ∧ exported.credentials = credentials
  | .rechecking | .checking .pointer | .writing .pointer _ =>
    Names serde d saved ∧ SavedAs d call credentials
  | .switched => SavedAs d call credentials ∧
      d.entries currentFile = some (.file true call.pointer.json)

section Saving

variable {ι : Type} {serde : Serde} {d d' : StateDir} {call : PersistCall}
variable {credentials : Credentials} {saved : StaticCredentials} {stage : PersistStage}
variable {a : PersistAction ι} {p : PersistProgress}

theorem Names.of_effect (h : Names serde d saved) (heffect : PersistEffect call d d' stage a p)
    (hcurrent : d'.entries currentFile = d.entries currentFile) : Names serde d' saved := by
  obtain ⟨q, hq, hrefers⟩ := h
  refine ⟨q, hq, hrefers.of_entries hcurrent ?_⟩
  by_cases hname : q.gameFile = currentFile
  · rw [hname, hcurrent]
  · obtain ⟨-, b, text, hentry, -⟩ := hrefers
    rw [hentry]
    exact heffect.kept hq.2.2.2 hname hentry

theorem SavedAs.of_effect (h : SavedAs d call credentials)
    (heffect : PersistEffect call d d' stage a p) : SavedAs d' call credentials := by
  obtain ⟨exported, hentry, heq⟩ := h
  exact ⟨exported, heffect.kept (isHidden_target call (.game exported))
    (target_ne_current call (show PersistFile.game exported ≠ .pointer by simp)) hentry, heq⟩

/-- Once the pointer of `call` is in place, the snapshot is what `call` has saved. -/
theorem SavedAs.references (h : SavedAs d call credentials)
    (hcurrent : d.entries currentFile = some (.file true call.pointer.json)) :
    ∃ saved, References serde d saved ∧ saved.credentials = credentials := by
  obtain ⟨exported, hentry, heq⟩ := h
  exact ⟨exported, ⟨call.pointer, ⟨true, _, hcurrent, serde.pointer_json _⟩, true, _, hentry,
    serde.credentialFile_json _⟩, heq⟩

/-- The directory references a snapshot of the given identity, in every stage. -/
theorem Saving.references (h : Saving serde d call credentials saved stage)
    (hsame : SameIdentity credentials saved.credentials) :
    ∃ saved', References serde d saved' ∧ SameIdentity saved'.credentials saved.credentials := by
  have hnames : Names serde d saved → ∃ saved', References serde d saved' ∧
      SameIdentity saved'.credentials saved.credentials :=
    fun h => ⟨saved, h.references, rfl, rfl⟩
  cases stage with
  | checking file | writing file =>
    cases file with
    | sdk => exact hnames h
    | game exported => exact hnames h.1
    | pointer => exact hnames h.1
  | exporting => exact hnames h
  | rechecking => exact hnames h.1
  | switched =>
    obtain ⟨saved', href, heq⟩ := h.1.references h.2
    exact ⟨saved', href, by rw [heq]; exact hsame⟩

theorem Names.of_agrees (h : Names serde d saved) (hagrees : d.Agrees d') :
    Names serde d' saved := by
  obtain ⟨q, hq, hrefers⟩ := h
  exact ⟨q, hq, hrefers.of_entries (hagrees _ (by decide)) (hagrees _ hq.2.2.2)⟩

theorem SavedAs.of_agrees (h : SavedAs d call credentials) (hagrees : d.Agrees d') :
    SavedAs d' call credentials := by
  obtain ⟨exported, hentry, heq⟩ := h
  exact ⟨exported, (hagrees _ (gameName_accepted call.id).2.2.2).trans hentry, heq⟩

theorem Saving.of_agrees (h : Saving serde d call credentials saved stage)
    (hagrees : d.Agrees d') : Saving serde d' call credentials saved stage := by
  cases stage with
  | checking file | writing file =>
    cases file with
    | sdk => exact Names.of_agrees h hagrees
    | game exported => exact ⟨h.1.of_agrees hagrees, h.2⟩
    | pointer => exact ⟨h.1.of_agrees hagrees, h.2.of_agrees hagrees⟩
  | exporting => exact Names.of_agrees h hagrees
  | rechecking => exact ⟨h.1.of_agrees hagrees, h.2.of_agrees hagrees⟩
  | switched => exact ⟨h.1.of_agrees hagrees, (hagrees _ (by decide)).trans h.2⟩

theorem Client.exported_credentials {client : Client ι} {generation : ℕ}
    {exported : StaticCredentials} (h : client.exported generation = .ok exported) :
    client.session.credentials = some exported.credentials := by
  simp only [Client.exported, Except.bind_eq_ok] at h
  obtain ⟨-, -, h⟩ := h
  split at h
  · cases h
  · cases h
  · next hcredentials =>
    cases h
    exact hcredentials

/-- A step of `persist` keeps the invariant: the old snapshot stays until the pointer of `call`, whose
game file then holds the session in memory, replaces it. -/
theorem Saving.step {stage' : PersistStage} (h : Saving serde d call credentials saved stage)
    (hmemory : ∀ client, a = .proceed client → client.session.credentials = some credentials)
    (heffect : PersistEffect call d d' stage a (.running stage')) :
    Saving serde d' call credentials saved stage' := by
  have hkept : stage' ≠ .switched → d'.entries currentFile = d.entries currentFile := by
    intro hne
    rcases heffect.current with hsame | ⟨-, hp, -⟩
    · exact hsame
    · exact absurd (PersistProgress.running.inj hp) hne
  have hnames : Names serde d saved → stage' ≠ .switched → Names serde d' saved :=
    fun h hne => h.of_effect heffect (hkept hne)
  have hsaved : SavedAs d call credentials → SavedAs d' call credentials :=
    fun h => h.of_effect heffect
  cases heffect with
  | @checked file =>
    cases file with
    | sdk => exact hnames h (by simp)
    | game exported => exact ⟨hnames h.1 (by simp), h.2⟩
    | pointer => exact ⟨hnames h.1 (by simp), hsaved h.2⟩
  | @written file =>
    cases file with
    | sdk => exact hnames h (by simp)
    | game exported => exact ⟨hnames h.1 (by simp), h.2⟩
    | pointer => exact ⟨hnames h.1 (by simp), hsaved h.2⟩
  | @moved file w a content =>
    cases file with
    | sdk => exact hnames h (by simp [PersistFile.next])
    | game exported => exact ⟨hnames h.1 (by simp [PersistFile.next]), exported, content, h.2⟩
    | pointer => exact ⟨hsaved h.2, content⟩
  | @exported client saved' export_eq =>
    have hcredentials := Client.exported_credentials export_eq
    rw [hmemory client rfl] at hcredentials
    exact ⟨hnames h (by simp), (Option.some.inj hcredentials).symm⟩
  | rechecked =>
    obtain ⟨hold, hnew⟩ : Names serde d saved ∧ SavedAs d call credentials := h
    exact ⟨hnames hold (by simp), hsaved hnew⟩

/-- The temporary file keeps up with the call. -/
theorem PersistEffect.holds {stage' : PersistStage}
    (h : PersistEffect call d d' stage a (.running stage')) : stage'.Holds call d' := by
  cases h with
  | checked | exported | rechecked => trivial
  | written holds => exact holds
  | @moved file => cases file <;> trivial

end Saving

/-! ### What a call knows -/

namespace GameRecovery

variable {ι : Type} {r : GameRecovery ι} {ts us : List (Transition (RecoveryState ι) (RecoveryEvent ι))}
variable {s s' : RecoveryState ι} {serde : Serde} {d₀ : StateDir} {saved : StaticCredentials}

/-- What a call knows in a stage: it has loaded the snapshot that the directory referenced when the
call began, has found its identity in memory, and has heard that the role exists. -/
def Known (r : GameRecovery ι) (serde : Serde) (d₀ : StateDir)
    (ts : List (Transition (RecoveryState ι) (RecoveryEvent ι))) : RecoveryStage → Prop
  | .entered | .locked | .current | .usable | .returned _ | .dropped => True
  | .loaded saved => Names serde d₀ saved
  | .matched saved | .approved saved _ | .described saved _ _ | .probing saved _ _ =>
    Names serde d₀ saved ∧ MatchedIn ts saved
  | .probed saved _ _ | .loggingIn saved _ | .loggedIn saved _ | .comparing saved _ _
  | .compared saved _ | .uncancelled saved _ | .saving saved _ _ =>
    Names serde d₀ saved ∧ MatchedIn ts saved ∧ RoleExists r ts

theorem MatchedIn.mono (h : MatchedIn ts saved) (hsub : ∀ t ∈ ts, t ∈ us) : MatchedIn us saved := by
  obtain ⟨t, ht, h⟩ := h
  exact ⟨t, hsub t ht, h⟩

theorem RoleExists.mono (h : RoleExists r ts) (hsub : ∀ t ∈ ts, t ∈ us) : RoleExists r us := by
  obtain ⟨t, ht, h⟩ := h
  exact ⟨t, hsub t ht, h⟩

theorem Known.mono {stage : RecoveryStage} (h : Known r serde d₀ ts stage)
    (hsub : ∀ t ∈ ts, t ∈ us) : Known r serde d₀ us stage := by
  cases stage with
  | entered | locked | current | usable | returned | dropped => trivial
  | loaded => exact h
  | matched | approved | described | probing => exact ⟨h.1, h.2.mono hsub⟩
  | probed | loggingIn | loggedIn | comparing | compared | uncancelled | saving =>
    exact ⟨h.1, h.2.1.mono hsub, h.2.2.mono hsub⟩

/-! ### The directory and the session in memory -/

/-- The directory and the session in memory, in a stage of the call. -/
def Settled (serde : Serde) (d₀ : StateDir) (s : RecoveryState ι) : RecoveryStage → Prop
  | .compared saved _ | .uncancelled saved _ => Locked d₀ s.directory ∧ ∃ credentials,
      s.client.session.credentials = some credentials ∧
        SameIdentity credentials saved.credentials
  | .saving saved call stage => ∃ credentials,
      s.client.session.credentials = some credentials ∧
        SameIdentity credentials saved.credentials ∧ stage.Holds call s.directory ∧
        Saving serde s.directory call credentials saved stage
  | .returned (.ok _) => ∃ saved credentials saved', References serde d₀ saved ∧
      s.client.session.credentials = some credentials ∧
        SameIdentity credentials saved.credentials ∧ References serde s.directory saved' ∧
        saved'.credentials = credentials
  | .returned (.error _) => ∀ saved, References serde d₀ saved →
      ∃ saved', References serde s.directory saved' ∧
        SameIdentity saved'.credentials saved.credentials
  | _ => Locked d₀ s.directory

theorem kept_of_locked {d : StateDir} (h : Locked d₀ d) (href : References serde d₀ saved) :
    ∃ saved', References serde d saved' ∧ SameIdentity saved'.credentials saved.credentials :=
  ⟨saved, h.references href, rfl, rfl⟩

/-- Whatever the stage, the referenced snapshot has the identity of the first one. -/
theorem Settled.kept (h : Settled serde d₀ s s.stage) (hknown : Known r serde d₀ ts s.stage)
    (href : References serde d₀ saved) :
    ∃ saved', References serde s.directory saved' ∧
      SameIdentity saved'.credentials saved.credentials := by
  generalize s.stage = stage at h hknown
  cases stage with
  | saving loaded call stage =>
    obtain ⟨credentials, -, hsame, -, hsaving⟩ := h
    obtain rfl := href.unique hknown.1.references
    exact hsaving.references hsame
  | returned result =>
    cases result with
    | error e => exact h saved href
    | ok =>
      obtain ⟨first, credentials, saved', hfirst, -, hsame, href', heq⟩ := h
      obtain rfl := href.unique hfirst
      exact ⟨saved', href', by rw [heq]; exact hsame⟩
  | compared | uncancelled => exact kept_of_locked h.1 href
  | entered | locked | current | usable | loaded | matched | approved | described | probing
  | probed | loggingIn | loggedIn | comparing | dropped => exact kept_of_locked h href

theorem Settled.save {call : PersistCall} {stage : PersistStage} {a : PersistAction ι}
    {d : StateDir} {p : PersistProgress} (h : Settled serde d₀ s (.saving saved call stage))
    (hnames : Names serde d₀ saved) (hpresent : ∀ client, a = .proceed client → client = s.client)
    (hacts : persistStep call s.directory stage a = some (d, p)) :
    Settled serde d₀ ⟨s.client, d, afterSave saved call p⟩ (afterSave saved call p) := by
  obtain ⟨credentials, hcredentials, hsame, hholds, hsaving⟩ := h
  have heffect := PersistEffect.of_step hholds hacts
  cases p with
  | running stage' =>
    refine ⟨credentials, hcredentials, hsame, heffect.holds, hsaving.step ?_ heffect⟩
    rintro client rfl
    rw [hpresent client rfl]
    exact hcredentials
  | returned result =>
    cases heffect with
    | refused agrees =>
      intro saved' href
      obtain rfl := href.unique hnames.references
      exact (hsaving.of_agrees agrees).references hsame
    | finished same =>
      subst same
      obtain ⟨saved', href, heq⟩ := hsaving.1.references hsaving.2
      exact ⟨saved, credentials, saved', hnames.references, hcredentials, hsame, href, heq⟩

/-- The event of the client, if it is one. -/
def ofClient : RecoveryEvent ι → Option (Client.Event ι)
  | .client e => some e
  | _ => none

/-- Only the login of the call installs credentials. -/
def Quiet (r : GameRecovery ι) (t : Transition (RecoveryState ι) (RecoveryEvent ι)) : Prop :=
  ∀ e ∈ ofClient t.event,
    Client.installsCredentials ⟨t.before.client, e, t.after.client⟩ = true → e.op = some r.login

instance [DecidableEq ι] (r : GameRecovery ι) (t : Transition (RecoveryState ι) (RecoveryEvent ι)) :
    Decidable (Quiet r t) := by
  unfold Quiet
  infer_instance

section Runs

variable [DecidableEq ι] {lib : Libraries} {opt : ClientOptions} {e : RecoveryEvent ι}

/-- The session in memory keeps its credentials unless the login is under way. -/
theorem credentials_of_quiet {e : Client.Event ι} {c : Client ι} (hnone : s.client.ops r.login = none)
    (hsteps : s.client.step lib opt e = some c)
    (hquiet : Quiet r ⟨s, .client e, { s with client := c }⟩) :
    c.session.credentials = s.client.session.credentials := by
  refine Client.credentials_of_step hsteps ?_
  by_contra hin
  simp only [Bool.not_eq_false] at hin
  have hop := hquiet e rfl hin
  cases e with
  | finish i files =>
    obtain rfl : i = r.login := Option.some.inj hop
    have hrunning : s.client.running r.login = none := by simp [Client.running, hnone]
    simp [Client.installsCredentials, hrunning] at hin
  | importCredentials | replaceSession => cases hop
  | _ => simp [Client.installsCredentials] at hin

theorem Settled.client (h : Settled serde d₀ s s.stage) (hlogin : LoginInv r ts s)
    {e : Client.Event ι} {c : Client ι} (hsteps : s.client.step lib opt e = some c)
    (hquiet : Quiet r ⟨s, .client e, { s with client := c }⟩) :
    Settled serde d₀ { s with client := c } s.stage := by
  have hkept : s.stage.isLoggingIn = false →
      c.session.credentials = s.client.session.credentials :=
    fun hl => credentials_of_quiet (hlogin.absent hl) hsteps hquiet
  generalize s.stage = stage at h hkept
  cases stage with
  | compared | uncancelled | saving =>
    simp only [Settled, hkept rfl]
    exact h
  | returned result =>
    cases result with
    | error => exact h
    | ok =>
      simp only [Settled, hkept rfl]
      exact h
  | entered | locked | current | usable | loaded | matched | approved | described | probing
  | probed | loggingIn | loggedIn | comparing | dropped => exact h

theorem Settled.step (h : Settled serde d₀ s s.stage) (hknown : Known r serde d₀ ts s.stage)
    (hlogin : LoginInv r ts s) (hs : r.step lib opt serde s e = some s')
    (hquiet : Quiet r ⟨s, e, s'⟩) : Settled serde d₀ s' s'.stage := by
  cases Step.of_step hs with
  | client _ steps => exact h.client hlogin steps hquiet
  | refused => exact fun saved href => h.kept hknown href
  | notLocked stage locks =>
    rw [stage] at h
    exact fun saved href => kept_of_locked (Locked.trans h (LoginConfig.locked_of_lock locks)) href
  | locked stage locks =>
    rw [stage] at h
    exact Locked.trans h (LoginConfig.locked_of_lock locks)
  | probeFailed stage | loginFailed stage =>
    rw [stage] at h
    exact fun saved href => kept_of_locked h href
  | compared stage matching =>
    rw [stage] at h
    exact ⟨h, Client.matchesIdentity_eq_true matching⟩
  | begun stage =>
    rw [stage] at h hknown
    obtain ⟨hlocked, credentials, hcredentials, hsame⟩ := h
    exact ⟨credentials, hcredentials, hsame, trivial, hlocked.names_iff.2 hknown.1⟩
  | saved saving present acts =>
    rw [saving] at h hknown
    exact h.save hknown.1 present acts
  | current stage | usable stage | loaded stage | matched stage | approved stage | described stage
  | probing stage | probed stage | loggingIn stage | loggedIn stage | comparing stage
  | uncancelled stage | droppedProbe stage | droppedLogin stage =>
    rw [stage] at h
    exact h

theorem Known.step (h : Known r serde d₀ ts s.stage) (hsettled : Settled serde d₀ s s.stage)
    (hs : r.step lib opt serde s e = some s') :
    Known r serde d₀ (ts ++ [⟨s, e, s'⟩]) s'.stage := by
  have hlast : (⟨s, e, s'⟩ : Transition (RecoveryState ι) (RecoveryEvent ι)) ∈ ts ++ [⟨s, e, s'⟩] :=
    List.mem_append_right _ List.mem_cons_self
  replace h : Known r serde d₀ (ts ++ [⟨s, e, s'⟩]) s.stage :=
    h.mono fun t ht => List.mem_append_left _ ht
  cases Step.of_step hs with
  | client => exact h
  | refused | notLocked | locked | current | usable | probeFailed | loginFailed | droppedProbe
  | droppedLogin => trivial
  | loaded stage loads =>
    rw [stage] at hsettled
    exact Locked.names_iff hsettled |>.1 (names_of_credentials loads)
  | matched stage matching =>
    rw [stage] at h
    obtain ⟨credentials, hcredentials, hsame⟩ := Client.matchesIdentity_eq_true matching
    exact ⟨h, _, hlast, credentials, stage, hcredentials, hsame⟩
  | probed stage result =>
    rw [stage] at h
    exact ⟨h.1, h.2, _, hlast, rfl, ⟨_, _, _, stage⟩, result⟩
  | @saved _ _ _ _ _ _ p saving =>
    rw [saving] at h
    cases p with
    | running => exact h
    | returned => trivial
  | approved stage | described stage | probing stage | loggingIn stage | loggedIn stage
  | comparing stage | compared stage | uncancelled stage | begun stage =>
    rw [stage] at h
    exact h

/-- What holds throughout a run of a call. -/
theorem settled_of_run {client : Client ι} (hne : r.probe ≠ r.login)
    (hprobe : client.ops r.probe = none) (hlogin : client.ops r.login = none)
    (hrun : Run (r.step lib opt serde) (start client d₀) ts s) (hquiet : ∀ t ∈ ts, Quiet r t) :
    Known r serde d₀ ts s.stage ∧ Settled serde d₀ s s.stage := by
  induction hrun with
  | nil => exact ⟨trivial, .inl rfl⟩
  | snoc hrun he ih =>
    obtain ⟨hknown, hsettled⟩ := ih fun t ht => hquiet t (List.mem_append_left _ ht)
    have hinv := loginInv_of_run hne hprobe hlogin hrun
    exact ⟨hknown.step hsettled he, hsettled.step hknown hinv he
      (hquiet _ (List.mem_append_right _ List.mem_cons_self))⟩

/-- **A recovery keeps the account.**  In every run of a call during which nothing but its own login
installs credentials, whatever the upstream answers and wherever the call ends: the call sends
`PlayerLogin` at most once, after it has heard that the role exists and has found the identity in memory
equal to that of the snapshot referenced at its start; when it returns `Ok`, the identity in memory is
that of the snapshot, and the pointer references a snapshot with the credentials in memory; and at any
moment the referenced snapshot has the identity of the one at the start. -/
theorem recovery_keeps_identity {client : Client ι} (hne : r.probe ≠ r.login)
    (hprobe : client.ops r.probe = none) (hlogin : client.ops r.login = none)
    (hrun : Run (r.step lib opt serde) (start client d₀) ts s) (hquiet : ∀ t ∈ ts, Quiet r t) :
    (∀ as t bs, ts = as ++ t :: bs → Sends r t →
      (∀ u ∈ as ++ bs, ¬ Sends r u) ∧ RoleExists r as ∧
        ∃ saved, References serde d₀ saved ∧ MatchedIn as saved) ∧
    (s.stage = .returned (.ok ()) → ∃ saved credentials saved', References serde d₀ saved ∧
      s.client.session.credentials = some credentials ∧
        SameIdentity credentials saved.credentials ∧ References serde s.directory saved' ∧
        saved'.credentials = credentials) ∧
    ∀ saved, References serde d₀ saved → ∃ saved', References serde s.directory saved' ∧
      SameIdentity saved'.credentials saved.credentials := by
  obtain ⟨hknown, hsettled⟩ := settled_of_run hne hprobe hlogin hrun hquiet
  refine ⟨?_, ?_, fun saved href => hsettled.kept hknown href⟩
  · rintro as t bs rfl hsends
    obtain ⟨hbefore, hstep, -⟩ := hrun.around
    obtain ⟨hlogging, hunsent⟩ := (loginInv_of_run hne hprobe hlogin hbefore).sends hstep hsends
    obtain ⟨hknown, -⟩ := settled_of_run hne hprobe hlogin hbefore fun u hu =>
      hquiet u (List.mem_append_left _ hu)
    constructor
    · intro u hu hsends'
      rcases List.mem_append.1 hu with hu | hu
      · exact hunsent u hu hsends'
      · -- the later one would be the second
        obtain ⟨bs₁, bs₂, rfl⟩ := List.append_of_mem hu
        rw [← List.cons_append, ← List.append_assoc] at hrun
        obtain ⟨hbefore', hstep', -⟩ := hrun.around
        have hnone := ((loginInv_of_run hne hprobe hlogin hbefore').sends hstep' hsends').2
        exact hnone t (List.mem_append_right _ List.mem_cons_self) hsends
    · generalize t.before.stage = stage at hknown hlogging
      cases stage with
      | loggingIn saved => exact ⟨hknown.2.2, saved, hknown.1.references, hknown.2.1⟩
      | _ => cases hlogging
  · intro hreturned
    rw [hreturned] at hsettled
    exact hsettled

end Runs

/-! ### A recovery that succeeds -/

def sampleSdk : SdkAuthorization := ⟨"global", "https://game.example", ⟨"uid", "access", none⟩⟩

/-- A snapshot of the sample player, with the given credential. -/
def savedWith (credential : String) : StaticCredentials :=
  ⟨"global", "https://game.example", "player", credential, none, some "uid"⟩

def oldId : Uuid := ⟨"00000000-0000-4000-8000-000000000000", by decide, by decide⟩

def newId : Uuid := ⟨"11111111-1111-4111-8111-111111111111", by decide, by decide⟩

def pointerTo (id : Uuid) : Pointer := ⟨"global", "https://game.example", id.sdkName, id.gameName⟩

/-- A directory whose pointer names a snapshot with the credential `old`. -/
def sampleDirectory : StateDir where
  isPrivate := true
  entries name :=
    if name = currentFile then some (.file true (pointerTo oldId).json)
    else if name = oldId.gameName then some (.file true (savedWith "old").json)
    else if name = oldId.sdkName then some (.file true sampleSdk.json)
    else none

def savedClient : Client ℕ :=
  Client.initial Client.sampleOptions
    (.fresh sampleConfig (some (savedWith "old").credentials) sampleTransport) 0

def sampleRecovery : GameRecovery ℕ := ⟨sampleConfig, 0, 0, 1⟩

/-- An RPC that is answered with `message`. -/
def rpcEvents (i : ℕ) (message : Message) : List (RecoveryEvent ℕ) :=
  [.submit "request", .client (.acquire i), .client (.enter i), .client (.start i),
    .client (.answer i (.ok ⟨message, none⟩)), .client (.check i),
    .client (.finish i ⟨true, true⟩), .take, .client (.advance 1)]

/-- A file that is written in one piece. -/
def writeEvents (content : Text) : List (RecoveryEvent ℕ) :=
  [.proceed, .disk (.create ".tmp"), .disk (.write content), .disk .sync, .disk .move]

/-- A recovery in which the login returns the credential `new`. -/
def recoveryEvents : List (RecoveryEvent ℕ) :=
  [.lock .free, .proceed, .proceed, .proceed, .proceed, .proceed,
      .context (.ok ⟨"model", "system", "device", 1, 1, 1⟩)] ++
    rpcEvents 0 (.preLogin true) ++ rpcEvents 1 (.login (some ("player", "new")) 0) ++
    [.proceed, .proceed, .isCancelled false, .persist newId] ++ writeEvents sampleSdk.json ++
    [.proceed] ++ writeEvents (savedWith "new").json ++
    [.proceed] ++ writeEvents (pointerTo newId).json ++ [.disk .sync]

/-- The steps of the sample recovery. -/
abbrev recoveryStep : RecoveryState ℕ → RecoveryEvent ℕ → Option (RecoveryState ℕ) :=
  sampleRecovery.step sampleLibraries Client.sampleOptions .compact

def isRecovered : RecoveryStage → Bool
  | .returned (.ok _) => true
  | _ => false

theorem recovery_keeps_identity_recovered :
    ∃ (s : RecoveryState ℕ) (saved' : StaticCredentials), s.stage = .returned (.ok ()) ∧
      References .compact s.directory saved' ∧
      s.client.session.credentials = some saved'.credentials ∧
      SameIdentity saved'.credentials (savedWith "old").credentials := by
  obtain ⟨⟨s, hs, hstage⟩, hquiet⟩ :
      (∃ s ∈ exec recoveryStep (start savedClient sampleDirectory) recoveryEvents,
          isRecovered s.stage = true) ∧
        ∀ t ∈ transitions recoveryStep (start savedClient sampleDirectory) recoveryEvents,
          Quiet sampleRecovery t := by
    decide +kernel
  have hreturned : s.stage = .returned (.ok ()) := by
    revert hstage
    cases s.stage with
    | returned result => cases result <;> simp [isRecovered]
    | _ => simp [isRecovered]
  have hrun := run_transitions hs
  obtain ⟨-, hok, -⟩ := recovery_keeps_identity (by decide) rfl rfl hrun hquiet
  obtain ⟨saved, credentials, saved', href, hcredentials, hsame, href', rfl⟩ := hok hreturned
  have hold : References .compact sampleDirectory (savedWith "old") :=
    ⟨pointerTo oldId, ⟨true, _, rfl, Serde.compact.pointer_json _⟩, true, _,
      rfl, Serde.compact.credentialFile_json _⟩
  obtain rfl := href.unique hold
  exact ⟨s, saved', hreturned, href', hcredentials, hsame⟩

end GameRecovery

end MoenotesApi
