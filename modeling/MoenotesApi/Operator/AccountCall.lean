import MoenotesApi.Operator.Provenance

/-!
# A call for one user

A call of `recover` in a state directory with files for its user only, next to a client whose credentials
were issued for that user.

* `Client.LogsInAt`: the only operation under way that can install credentials;
* `ScopedFor`: everything within reach of the call belongs to its user; authorizations and credentials
  are followed from the answers that brought them through the client, the stages of the call and
  the files;
* `ScopedAdvance`: a step keeps it so, and what it does is done for the user and in the directory;
* `ScopedFor.step`, `ScopedFor.client`: so does every step of the call, `GameRecovery::recover`
  included, and every event of the rest of the server.
-/

namespace MoenotesApi

open JsonText Files Runs

/-! ### Operations that install credentials -/

namespace Client

variable {ι : Type} {lib : Libraries} {opt : ClientOptions} {c c' : Client ι}
  {e : Client.Event ι} {allowed : Option ι} {i : ι}

/-- No operation but a login with the name `allowed` can install credentials. -/
def LogsInAt (c : Client ι) (allowed : Option ι) : Prop :=
  ∀ i op, c.ops i = some (.running op) → op.call.installsCredentials = true →
    op.call.isLogin = true ∧ allowed = some i

theorem logsInAt_withTransport {config : SessionConfig} {transport : Transport} {now : ℕ}
    (h : withTransport lib opt config none transport now = .ok c) : c.LogsInAt none := by
  obtain ⟨session, -, rfl⟩ := withTransport_ok h
  intro i op hi
  cases hi

/-- A request of the rest of the server installs no credentials. -/
theorem Prepares.neutral {request : Request} {requestId : String} {op : Op}
    (h : Prepares lib c requestId request op)
    (he : (Client.Event.submit i request requestId).neutral = true) :
    op.call.installsCredentials = false := by
  cases h with
  | login => cases he
  | register => cases he
  | _ => rfl

variable [DecidableEq ι]

theorem LogsInAt.neutral (h : c.LogsInAt allowed) (hstep : c.step lib opt e = some c')
    (he : e.neutral = true) : c'.LogsInAt allowed := by
  intro i op' hi hinstalls
  rcases (Step.of_step hstep).running hi with ⟨op, hop, hfollows⟩ | ⟨request, id, rfl, -, hprepares⟩
  · rw [hfollows.call] at hinstalls ⊢
    exact h i op hop hinstalls
  · rw [hprepares.neutral he] at hinstalls
    cases hinstalls

/-- The call submits its login. -/
theorem LogsInAt.login (h : c.LogsInAt none) {generation : ℕ} {sdk : SdkAuthorization}
    {context : AndroidLoginContext} {requestId : String}
    (hstep : c.step lib opt (.submit i (.login generation sdk context) requestId) = some c') :
    c'.LogsInAt (some i) := by
  intro j op' hj hinstalls
  rcases (Step.of_step hstep).running hj with ⟨op, hop, hfollows⟩ | ⟨request, id, he, -, hprepares⟩
  · rw [hfollows.call] at hinstalls
    cases (h j op hop hinstalls).2
  · cases he
    cases hprepares with
    | login => exact ⟨rfl, rfl⟩

/-- The login is over. -/
theorem LogsInAt.over (h : c.LogsInAt (some i)) (hops : c'.ops = Function.update c.ops i none) :
    c'.LogsInAt none := by
  intro j op hj hinstalls
  rw [hops] at hj
  by_cases hji : j = i
  · subst hji
    rw [Function.update_self] at hj
    cases hj
  · rw [Function.update_of_ne hji] at hj
    exact absurd (Option.some.inj (h j op hj hinstalls).2).symm hji

/-- Where the credentials in memory come from after an event of the rest of the server. -/
theorem credentials_of_neutral (h : c.LogsInAt allowed) (hstep : c.step lib opt e = some c')
    (he : e.neutral = true) :
    c'.session.credentials = c.session.credentials ∨ c'.session.credentials = none ∨
      ∃ i files, e = .finish i files ∧ allowed = some i ∧ c'.current ≠ c.current ∧
        (c.running i).any (fun op => op.call.isLogin) = true := by
  cases hinstalls : installsCredentials (⟨c, e, c'⟩ : Transition (Client ι) (Event ι)) with
  | false => exact .inl (credentials_of_step hstep hinstalls)
  | true =>
    have hne : c'.current ≠ c.current := by
      intro heq
      simp [installsCredentials, heq] at hinstalls
    cases (install_cases hstep hne).1 with
    | @finish i op _ files _ _ hfinish hi =>
      subst hfinish
      simp only [installsCredentials, running_eq_some.2 hi, Option.any_some, Bool.and_eq_true]
        at hinstalls
      obtain ⟨hlogin, hallowed⟩ := h i op hi hinstalls.2
      refine .inr (.inr ⟨i, files, rfl, hallowed, hne, ?_⟩)
      rw [running_eq_some.2 hi]
      exact hlogin
    | imported himport =>
      subst himport
      cases he
    | @replaced config provider _ hreplace hsession =>
      subst hreplace
      cases provider with
      | none => exact .inr (.inl (by rw [hsession]; rfl))
      | some provider => cases he

/-- The events of a call itself. -/
def Event.own : Client.Event ι → Bool
  | .submit _ _ _ | .take _ | .drop _ => true
  | _ => false

/-- The call itself leaves the credentials in memory alone. -/
theorem credentials_of_own (hstep : c.step lib opt e = some c') (he : e.own = true) :
    c'.session.credentials = c.session.credentials := by
  refine credentials_of_step hstep ?_
  cases e with
  | submit | take | drop => exact Bool.and_false _
  | _ => cases he

end Client

/-! ### A call in its state directory -/

/-- What a call of `GameRecovery::recover` holds belongs to the user. -/
def RecoveryStage.For {ι : Type} (l : Ledger ι) (user : String) (d : StateDir) :
    RecoveryStage → Prop
  | .approved _ sdk | .described _ sdk _ | .probing _ sdk _ | .probed _ sdk _ | .loggingIn _ sdk
  | .loggedIn _ sdk | .comparing _ sdk _ | .compared _ sdk | .uncancelled _ sdk =>
    l.Obtained user sdk
  | .saving _ call stage => SavesFor l user call stage ∧ stage.Holds call d
  | _ => True

/-- What a call holds belongs to the user. -/
def ScopedStage.For {ι : Type} (l : Ledger ι) (user : String) (d : StateDir) :
    ScopedStage → Prop
  | .delegated stage => stage.For l user d
  | .found saved | .loading saved | .replacing saved _ => l.Issued user saved.credentials
  | .answered sdk | .authorized sdk | .described sdk _ | .probing sdk _ | .probed sdk _
  | .loggingIn sdk | .loggedIn sdk | .received sdk => l.Obtained user sdk
  | .writing sdk w => l.Obtained user sdk ∧ sdk.job.Holds d w
  | .persisting call stage => SavesFor l user call stage ∧ stage.Holds call d
  | _ => True

/-- What a call has done was done for the user, in this directory. -/
def AccountEffect.For {ι : Type} (l : Ledger ι) (user dir : String) : AccountEffect → Prop
  | .opened dir' => dir' = dir
  | .requested account => account.user = user
  | .preLogin sdk | .login sdk => l.Obtained user sdk
  | .loaded dir' saved => dir' = dir ∧ l.Issued user saved.credentials
  | .wroteSdk dir' sdk => dir' = dir ∧ l.Obtained user sdk
  | .wrote dir' call file => dir' = dir ∧ FileFor l user call file

/-- Everything within reach of a call belongs to its user. -/
structure ScopedFor {ι : Type} (l : Ledger ι) (r : GameRecovery ι) (user : String)
    (s : ScopedState ι) : Prop where
  directory : Honest l user s.directory
  session : ∀ credentials, s.client.session.credentials = some credentials →
    l.Issued user credentials
  logins : s.client.LogsInAt (s.stage.login.map fun _ => r.login)
  logged : ∀ sdk, s.stage.login = some sdk → l.logins r.login = some sdk
  stage : s.stage.For l user s.directory

section For

variable {ι : Type} {l l' : Ledger ι} {user dir : String} {d : StateDir}

theorem RecoveryStage.For.mono {stage : RecoveryStage} (h : stage.For l user d)
    (hl : l.Extends l') : stage.For l' user d := by
  cases stage with
  | saving => exact ⟨SavesFor.mono h.1 hl, h.2⟩
  | approved | described | probing | probed | loggingIn | loggedIn | comparing | compared
  | uncancelled => exact Ledger.Obtained.mono h hl
  | _ => trivial

theorem ScopedStage.For.mono {stage : ScopedStage} (h : stage.For l user d)
    (hl : l.Extends l') : stage.For l' user d := by
  cases stage with
  | delegated => exact RecoveryStage.For.mono h hl
  | found | loading | replacing => exact Ledger.Issued.mono h hl
  | answered | authorized | described | probing | probed | loggingIn | loggedIn | received =>
    exact Ledger.Obtained.mono h hl
  | writing => exact ⟨Ledger.Obtained.mono h.1 hl, h.2⟩
  | persisting => exact ⟨SavesFor.mono h.1 hl, h.2⟩
  | _ => trivial

/-- The authorization of a login under way belongs to the user. -/
theorem ScopedStage.For.login {stage : ScopedStage} {sdk : SdkAuthorization}
    (h : stage.For l user d) (hlogin : stage.login = some sdk) : l.Obtained user sdk := by
  unfold ScopedStage.login at hlogin
  split at hlogin
  · cases hlogin
    exact h
  · cases hlogin
    exact h
  · cases hlogin

theorem AccountEffect.For.mono {x : AccountEffect} (h : x.For l user dir) (hl : l.Extends l') :
    x.For l' user dir := by
  cases x with
  | opened | requested => exact h
  | preLogin | login => exact Ledger.Obtained.mono h hl
  | loaded => exact ⟨h.1, Ledger.Issued.mono h.2 hl⟩
  | wroteSdk => exact ⟨h.1, Ledger.Obtained.mono h.2 hl⟩
  | wrote => exact ⟨h.1, FileFor.mono h.2 hl⟩

/-- What an event of the client adds to the ledger. -/
theorem Ledger.client_eq (l : Ledger ι) (c : Client ι) (e : Client.Event ι) (c' : Client ι) :
    ∃ issued, l.client c e c' = { l with issued := issued } ∧ ∀ x ∈ l.issued, x ∈ issued := by
  unfold Ledger.client
  split
  · split_ifs
    · split
      · exact ⟨_, rfl, fun _ hx => List.mem_cons_of_mem _ hx⟩
      · exact ⟨_, rfl, fun _ hx => hx⟩
    · exact ⟨_, rfl, fun _ hx => hx⟩
  · exact ⟨_, rfl, fun _ hx => hx⟩

theorem extends_client {c c' : Client ι} {e : Client.Event ι} : l.Extends (l.client c e c') := by
  obtain ⟨issued, hledger, hissued⟩ := l.client_eq c e c'
  rw [hledger]
  exact ⟨fun _ hx => hx, hissued⟩

end For

section Scoped

variable {ι : Type} [DecidableEq ι] {l : Ledger ι} {r : GameRecovery ι} {account : Account}
  {dir : String} {s s' : ScopedState ι} {stage' : ScopedStage} {d : StateDir}
  {a : AccountDirectoryClient} {lib : Libraries} {opt : ClientOptions} {serde : Serde}

/-- A step of a call, with what it has done. -/
structure ScopedAdvance (l : Ledger ι) (r : GameRecovery ι) (account : Account) (dir : String)
    (s s' : ScopedState ι) : Prop where
  holds : ScopedFor (l.advance r account dir s.stage s'.stage) r account.user s'
  effects : ∀ x ∈ s.stage.effects account dir s'.stage,
    x.For (l.advance r account dir s.stage s'.stage) account.user dir

theorem extends_advance {stage : ScopedStage} :
    l.Extends (l.advance r account dir stage stage') :=
  ⟨fun _ h => List.mem_append_right _ h, fun _ h => h⟩

theorem logins_advance {stage : ScopedStage} {sdk : SdkAuthorization}
    (h : stage'.login = some sdk) :
    (l.advance r account dir stage stage').logins r.login = some sdk := by
  simp only [Ledger.advance, h, Function.update_self]

/-- A step that does not install credentials. -/
theorem ScopedFor.advances (h : ScopedFor l r account.user s)
    (hd : Honest l account.user s'.directory)
    (hcredentials : s'.client.session.credentials = s.client.session.credentials)
    (hlogins : s'.client.LogsInAt (s'.stage.login.map fun _ => r.login))
    (hfor : s'.stage.For (l.advance r account dir s.stage s'.stage) account.user s'.directory)
    (heffects : ∀ x ∈ s.stage.effects account dir s'.stage,
      x.For (l.advance r account dir s.stage s'.stage) account.user dir) :
    ScopedAdvance l r account dir s s' where
  holds :=
    { directory := hd.mono extends_advance
      session := fun credentials hsession =>
        (h.session credentials (hcredentials ▸ hsession)).mono extends_advance
      logins := hlogins
      logged := fun _ hlogin => logins_advance hlogin
      stage := hfor }
  effects := heffects

/-- A step that leaves the client alone. -/
theorem ScopedFor.acts (h : ScopedFor l r account.user s) (hlogin : s.stage.login = none)
    (hlogin' : stage'.login = none) (hd : Honest l account.user d)
    (hfor : stage'.For (l.advance r account dir s.stage stage') account.user d)
    (heffects : ∀ x ∈ s.stage.effects account dir stage',
      x.For (l.advance r account dir s.stage stage') account.user dir) :
    ScopedAdvance l r account dir s ⟨s.client, d, stage'⟩ := by
  refine h.advances hd rfl ?_ hfor heffects
  have hlogins := h.logins
  rw [hlogin] at hlogins
  show s.client.LogsInAt (stage'.login.map fun _ => r.login)
  rw [hlogin']
  exact hlogins

/-- A step with no effect. -/
theorem ScopedFor.moves (h : ScopedFor l r account.user s) (hlogin : s.stage.login = none)
    (hlogin' : stage'.login = none) (hd : Honest l account.user d)
    (hfor : stage'.For (l.advance r account dir s.stage stage') account.user d)
    (heffects : s.stage.effects account dir stage' = []) :
    ScopedAdvance l r account dir s ⟨s.client, d, stage'⟩ := by
  refine h.acts hlogin hlogin' hd hfor ?_
  rw [heffects]
  exact nofun

omit [DecidableEq ι] in
theorem effects_error (stage : ScopedStage) (e : ClientError) :
    stage.effects account dir (.returned (.error e)) = [] := by
  cases stage <;> rfl

/-- The call returns an error. -/
theorem ScopedFor.fails (h : ScopedFor l r account.user s) (hlogin : s.stage.login = none)
    (hd : Honest l account.user d) (e : ClientError) :
    ScopedAdvance l r account dir s ⟨s.client, d, .returned (.error e)⟩ :=
  h.moves hlogin rfl hd trivial (effects_error _ e)

/-- The call submits, takes or drops one of its RPCs. -/
theorem ScopedFor.calls (h : ScopedFor l r account.user s) {e : Client.Event ι} {c : Client ι}
    (hstep : s.client.step lib opt e = some c) (he : e.own = true)
    (hlogins : c.LogsInAt (stage'.login.map fun _ => r.login))
    (hfor : stage'.For (l.advance r account dir s.stage stage') account.user s.directory)
    (heffects : ∀ x ∈ s.stage.effects account dir stage',
      x.For (l.advance r account dir s.stage stage') account.user dir) :
    ScopedAdvance l r account dir s ⟨c, s.directory, stage'⟩ :=
  h.advances h.directory (Client.credentials_of_own hstep he) hlogins hfor heffects

end Scoped

/-! ### The steps of a call -/

section Steps

variable {ι : Type} {l : Ledger ι} {r : GameRecovery ι} {account : Account} {dir : String}
  {s s' : ScopedState ι} {a : AccountDirectoryClient} {lib : Libraries} {opt : ClientOptions}
  {serde : Serde} {client : Client ι} {d : StateDir}

/-- What `persist` has put under its name. -/
theorem SavesFor.wrote {user : String} {call : PersistCall} {stage stage' : PersistStage}
    {file : PersistFile} (h : SavesFor l user call stage) (hwrote : stage.wrote stage' = some file) :
    FileFor l user call file := by
  cases stage with
  | writing written w =>
    have hfile : written = file := by
      cases stage' with
      | writing => cases hwrote
      | _ => exact Option.some.inj hwrote
    rw [← hfile]
    exact h
  | _ => cases hwrote

/-- A step of `persist` writes files of the user. -/
theorem SavesFor.effects {l' : Ledger ι} {user : String} {call : PersistCall}
    {stage stage' : PersistStage} (h : SavesFor l user call stage) (hl : l.Extends l') :
    ∀ x ∈ ((stage.wrote stage').map (AccountEffect.wrote dir call)).toList, x.For l' user dir := by
  intro x hx
  obtain ⟨file, hwrote, rfl⟩ := Option.map_eq_some_iff.1 (Option.mem_toList.1 hx)
  exact ⟨rfl, (h.wrote hwrote).mono hl⟩

variable [DecidableEq ι]

/-- A step of `persist`. -/
theorem ScopedFor.save {call : PersistCall} {stage : PersistStage}
    (h : ScopedFor l r account.user ⟨client, d, .persisting call stage⟩) {action : PersistAction ι}
    (hpresent : ∀ c, action = .proceed c → c = client)
    (hstep : ScopedState.save ⟨client, d, .persisting call stage⟩ call stage action = some s') :
    ScopedAdvance l r account dir ⟨client, d, .persisting call stage⟩ s' := by
  obtain ⟨hsaves, hholds⟩ : SavesFor l account.user call stage ∧ stage.Holds call d := h.stage
  unfold ScopedState.save at hstep
  split at hstep
  · cases hstep
  · next d' p hacts =>
    cases hstep
    obtain ⟨hd, hrunning⟩ := hsaves.step h.directory hholds
      (fun c hc => hpresent c hc ▸ h.session) hacts
    cases p with
    | returned result => exact h.moves rfl rfl hd trivial rfl
    | running stage' =>
      obtain ⟨hsaves', hholds'⟩ := hrunning stage' rfl
      exact h.acts rfl rfl hd ⟨hsaves'.mono extends_advance, hholds'⟩
        (hsaves.effects extends_advance)

/-- A step of `save_to_file`. -/
theorem ScopedFor.saveSdk {sdk : SdkAuthorization} {w : Writing Char}
    (h : ScopedFor l r account.user ⟨client, d, .writing sdk w⟩) {action : Action Char}
    (hstep : ScopedState.saveSdk ⟨client, d, .writing sdk w⟩ sdk w action = some s') :
    ScopedAdvance l r account dir ⟨client, d, .writing sdk w⟩ s' := by
  obtain ⟨hobtained, hholds⟩ : l.Obtained account.user sdk ∧ sdk.job.Holds d w := h.stage
  unfold ScopedState.saveSdk at hstep
  split at hstep
  · cases hstep
  · next hjob =>
    cases hstep
    cases Job.step_spec hholds hjob with
    | writing hholds' hagrees =>
      exact h.moves rfl rfl (h.directory.of_agrees hagrees)
        ⟨hobtained.mono extends_advance, hholds'⟩ rfl
  · next hjob =>
    cases hstep
    cases Job.step_spec hholds hjob with
    | moved hcontent _ hothers =>
      refine h.acts rfl rfl (h.directory.of_written (.initial hobtained) hcontent hothers)
        (hobtained.mono extends_advance) ?_
      intro x hx
      rw [List.mem_singleton.1 hx]
      exact ⟨rfl, hobtained.mono extends_advance⟩
  · next hjob =>
    cases hstep
    cases Job.step_spec hholds hjob with
    | failed hagrees => exact h.fails rfl (h.directory.of_agrees hagrees) _

/-- A saved session is loaded. -/
theorem ScopedFor.loads {saved : StaticCredentials} {config : SessionConfig} {c : Client ι}
    (h : ScopedFor l r account.user ⟨client, d, .replacing saved config⟩)
    (hreplace : client.replaceSession lib config (some saved) = .ok c) :
    ScopedAdvance l r account dir ⟨client, d, .replacing saved config⟩ ⟨c, d, .returned (.ok ())⟩ := by
  have hissued : l.Issued account.user saved.credentials := h.stage
  obtain ⟨transport, new, -, hnew, rfl⟩ := Client.replaceSession_ok hreplace
  refine ⟨⟨h.directory.mono extends_advance, ?_, h.logins, nofun, trivial⟩, ?_⟩
  · intro credentials hsession
    rw [Client.install_session, makeSession_eq hnew] at hsession
    cases hsession
    exact hissued.mono extends_advance
  · intro x hx
    rw [List.mem_singleton.1 hx]
    exact ⟨rfl, hissued.mono extends_advance⟩

theorem ScopedFor.proceed (h : ScopedFor l r account.user s)
    (hstep : a.proceed lib serde s = some s') : ScopedAdvance l r account dir s s' := by
  obtain ⟨client, d, stage⟩ := s
  cases stage with
  | entered =>
    cases hstep
    split_ifs
    · exact h.moves rfl rfl h.directory trivial rfl
    · exact h.moves rfl rfl h.directory trivial rfl
  | unrejected =>
    cases hstep
    split_ifs
    · exact h.moves rfl rfl h.directory trivial rfl
    · exact h.fails rfl h.directory _
  | locked =>
    simp only [AccountDirectoryClient.proceed] at hstep
    split at hstep
    · cases hstep
      exact h.fails rfl h.directory _
    · next saved hsaved =>
      cases hstep
      have hissued := h.directory.credentials hsaved
      exact h.moves rfl rfl h.directory (hissued.mono extends_advance) rfl
    · cases hstep
      split_ifs
      · exact h.moves rfl rfl h.directory trivial rfl
      · exact h.fails rfl h.directory _
  | loading saved =>
    cases hstep
    have hissued : l.Issued account.user saved.credentials := h.stage
    exact h.moves rfl rfl h.directory (hissued.mono extends_advance) rfl
  | replacing saved config =>
    simp only [AccountDirectoryClient.proceed] at hstep
    split at hstep
    · cases hstep
      exact h.fails rfl h.directory _
    · next c hreplace =>
      cases hstep
      exact h.loads hreplace
  | validated =>
    simp only [AccountDirectoryClient.proceed] at hstep
    split at hstep
    · cases hstep
      exact h.moves rfl rfl h.directory trivial rfl
    · cases hstep
      exact h.fails rfl h.directory _
    · split at hstep
      · cases hstep
        exact h.fails rfl h.directory _
      · next sdk hsdk =>
        cases hstep
        have hobtained := h.directory.initialSdk hsdk
        exact h.moves rfl rfl h.directory (hobtained.mono extends_advance) rfl
  | answered sdk =>
    have hobtained : l.Obtained account.user sdk := h.stage
    simp only [AccountDirectoryClient.proceed] at hstep
    split at hstep
    · cases hstep
      exact h.fails rfl h.directory _
    · cases hstep
      exact h.moves rfl rfl h.directory ⟨hobtained.mono extends_advance, trivial⟩ rfl
  | persisting call stage =>
    refine h.save ?_ hstep
    rintro c ⟨⟩
    rfl
  | _ => cases hstep

/-- The call submits its `PreLogin`. -/
theorem ScopedFor.submit (h : ScopedFor l r account.user s) {requestId : String}
    (hstep : AccountDirectoryClient.submit lib opt r s requestId = some s') :
    ScopedAdvance l r account dir s s' := by
  obtain ⟨client, d, stage⟩ := s
  cases stage with
  | described sdk context =>
    have hobtained : l.Obtained account.user sdk := h.stage
    obtain ⟨c, hc, rfl⟩ := Option.map_eq_some_iff.1 hstep
    refine h.calls hc rfl (h.logins.neutral hc rfl) (hobtained.mono extends_advance) ?_
    intro x hx
    rw [List.mem_singleton.1 hx]
    exact hobtained.mono extends_advance
  | probed sdk context =>
    have hobtained : l.Obtained account.user sdk := h.stage
    obtain ⟨c, hc, rfl⟩ := Option.map_eq_some_iff.1 hstep
    refine h.calls hc rfl (h.logins.login hc) (hobtained.mono extends_advance) ?_
    intro x hx
    rw [List.mem_singleton.1 hx]
    exact hobtained.mono extends_advance
  | _ => cases hstep

/-- The call takes or drops an RPC, and has nothing to show for it yet. -/
theorem ScopedFor.ends {stage stage' : ScopedStage} {i : ι} {e : Client.Event ι} {c : Client ι}
    (h : ScopedFor l r account.user ⟨client, d, stage⟩) (hstep : client.step lib opt e = some c)
    (he : e = .take i ∨ e = .drop i) (hi : stage.login = none ∨ i = r.login)
    (hlogin' : stage'.login = none)
    (hfor : stage'.For (l.advance r account dir stage stage') account.user d)
    (heffects : stage.effects account dir stage' = []) :
    ScopedAdvance l r account dir ⟨client, d, stage⟩ ⟨c, d, stage'⟩ := by
  have hlogins : c.LogsInAt none := by
    have hbefore : client.LogsInAt (stage.login.map fun _ => r.login) := h.logins
    have hneutral : e.neutral = true := by rcases he with rfl | rfl <;> rfl
    have hops : c.ops = Function.update client.ops i none := by
      rcases he with rfl | rfl
      · exact Client.ops_of_take hstep
      · exact Client.ops_of_drop hstep
    rcases hi with hnone | rfl
    · rw [hnone] at hbefore
      exact hbefore.neutral hstep hneutral
    · cases hlogin : stage.login with
      | none =>
        rw [hlogin] at hbefore
        exact hbefore.neutral hstep hneutral
      | some sdk =>
        rw [hlogin] at hbefore
        exact hbefore.over hops
  have hown : e.own = true := by rcases he with rfl | rfl <;> rfl
  refine h.calls hstep hown ?_ hfor ?_
  · rw [hlogin']
    exact hlogins
  · show ∀ x ∈ stage.effects account dir stage', _
    rw [heffects]
    exact nofun

theorem ScopedFor.take (h : ScopedFor l r account.user s)
    (hstep : a.take lib opt r s = some s') : ScopedAdvance l r account dir s s' := by
  obtain ⟨client, d, stage⟩ := s
  cases stage with
  | probing sdk context =>
    have hobtained : l.Obtained account.user sdk := h.stage
    simp only [AccountDirectoryClient.take] at hstep
    split at hstep
    · next hc =>
      split_ifs at hstep
      · cases hstep
        exact h.ends hc (.inl rfl) (.inl rfl) rfl trivial rfl
      · cases hstep
        exact h.ends hc (.inl rfl) (.inl rfl) rfl (hobtained.mono extends_advance) rfl
    · next hc =>
      cases hstep
      exact h.ends hc (.inl rfl) (.inl rfl) rfl trivial rfl
    · cases hstep
  | loggingIn sdk =>
    have hobtained : l.Obtained account.user sdk := h.stage
    simp only [AccountDirectoryClient.take] at hstep
    split at hstep
    · next hc =>
      cases hstep
      exact h.ends hc (.inl rfl) (.inr rfl) rfl (hobtained.mono extends_advance) rfl
    · next hc =>
      cases hstep
      exact h.ends hc (.inl rfl) (.inr rfl) rfl trivial rfl
    · cases hstep
  | _ => cases hstep

theorem ScopedFor.drop (h : ScopedFor l r account.user s)
    (hstep : AccountDirectoryClient.drop lib opt r s = some s') : ScopedAdvance l r account dir s s' := by
  obtain ⟨client, d, stage⟩ := s
  cases stage with
  | requesting =>
    cases hstep
    exact h.moves rfl rfl h.directory trivial rfl
  | probing sdk context =>
    obtain ⟨c, hc, rfl⟩ := Option.map_eq_some_iff.1 hstep
    exact h.ends hc (.inr rfl) (.inl rfl) rfl trivial rfl
  | loggingIn sdk =>
    obtain ⟨c, hc, rfl⟩ := Option.map_eq_some_iff.1 hstep
    exact h.ends hc (.inr rfl) (.inr rfl) rfl trivial rfl
  | _ => cases hstep

end Steps

/-! ### The delegated call -/

section Delegated

variable {ι : Type} [DecidableEq ι] {l : Ledger ι} {r : GameRecovery ι} {account : Account}
  {dir : String} {s s' : ScopedState ι} {a : AccountDirectoryClient} {lib : Libraries}
  {opt : ClientOptions} {serde : Serde} {client : Client ι} {d : StateDir} {stage : RecoveryStage}

omit [DecidableEq ι] in
/-- The authorization comes from the state directory. -/
theorem approvedSdk_of_proceed {s s' : RecoveryState ι} {saved saved' : StaticCredentials}
    {sdk : SdkAuthorization} (hs : s.stage = .matched saved)
    (hstep : r.proceed lib serde s = some s') (hs' : s'.stage = .approved saved' sdk) :
    LoginConfig.approvedSdk serde lib s.directory r.config = .ok sdk := by
  unfold GameRecovery.proceed at hstep
  rw [hs] at hstep
  dsimp only at hstep
  split at hstep
  · cases hstep
    cases hs'
  · next hsdk =>
    cases hstep
    cases hs'
    exact hsdk

/-- A step of `persist` in the delegated call. -/
theorem ScopedFor.delegatedSave {saved : StaticCredentials} {call : PersistCall}
    {stage : PersistStage} {d' : StateDir} {p : PersistProgress} {action : PersistAction ι}
    (h : ScopedFor l r account.user ⟨client, d, .delegated (.saving saved call stage)⟩)
    (hpresent : ∀ c, action = .proceed c → c = client)
    (hacts : persistStep call d stage action = some (d', p)) :
    ScopedAdvance l r account dir ⟨client, d, .delegated (.saving saved call stage)⟩
      ⟨client, d', ScopedState.afterRecovery (GameRecovery.afterSave saved call p)⟩ := by
  obtain ⟨hsaves, hholds⟩ : SavesFor l account.user call stage ∧ stage.Holds call d := h.stage
  obtain ⟨hd, hrunning⟩ := hsaves.step h.directory hholds
    (fun c hc => hpresent c hc ▸ h.session) hacts
  cases p with
  | returned result => exact h.moves rfl rfl hd trivial rfl
  | running stage' =>
    obtain ⟨hsaves', hholds'⟩ := hrunning stage' rfl
    exact h.acts rfl rfl hd ⟨hsaves'.mono extends_advance, hholds'⟩
      (hsaves.effects extends_advance)

/-- A step of `GameRecovery::recover`. -/
theorem ScopedFor.recovers {e : RecoveryEvent ι} {c : Client ι} {d' : StateDir}
    {stage' : RecoveryStage}
    (h : ScopedFor l r account.user ⟨client, d, .delegated stage⟩) (he : ∀ e', e ≠ .client e')
    (hstep : r.step lib opt serde ⟨client, d, stage⟩ e = some ⟨c, d', stage'⟩) :
    ScopedAdvance l r account dir ⟨client, d, .delegated stage⟩
      ⟨c, d', ScopedState.afterRecovery stage'⟩ := by
  cases GameRecovery.Step.of_step hstep with
  | client => exact absurd rfl (he _)
  | refused hidle =>
    have hlogin : (ScopedStage.delegated stage).login = none := by
      cases stage with
      | loggingIn => cases hidle
      | _ => rfl
    exact h.fails hlogin h.directory _
  | notLocked hs hlocks =>
    cases hs
    exact h.fails rfl (h.directory.of_lock hlocks) _
  | locked hs hlocks =>
    cases hs
    exact h.moves rfl rfl (h.directory.of_lock hlocks) trivial rfl
  | current hs | usable hs | loaded hs | matched hs =>
    cases hs
    exact h.moves rfl rfl h.directory trivial rfl
  | @approved saved sdk hs =>
    cases hs
    have hproceed : r.proceed lib serde ⟨client, d, .matched saved⟩ = some _ := hstep
    have hobtained := h.directory.approvedSdk (approvedSdk_of_proceed rfl hproceed rfl)
    exact h.moves rfl rfl h.directory (hobtained.mono extends_advance) rfl
  | @described saved sdk context hs =>
    cases hs
    have hobtained : l.Obtained account.user sdk := h.stage
    exact h.moves rfl rfl h.directory (hobtained.mono extends_advance) rfl
  | @probing saved sdk context requestId c hs hc =>
    cases hs
    have hobtained : l.Obtained account.user sdk := h.stage
    refine h.calls hc rfl (h.logins.neutral hc rfl) (hobtained.mono extends_advance) ?_
    intro x hx
    rw [List.mem_singleton.1 hx]
    exact hobtained.mono extends_advance
  | @probed saved sdk context c hs _ hc =>
    cases hs
    have hobtained : l.Obtained account.user sdk := h.stage
    exact h.ends hc (.inl rfl) (.inl rfl) rfl (hobtained.mono extends_advance) rfl
  | @loggingIn saved sdk context requestId c hs hc =>
    cases hs
    have hobtained : l.Obtained account.user sdk := h.stage
    refine h.calls hc rfl (h.logins.login hc) (hobtained.mono extends_advance) ?_
    intro x hx
    rw [List.mem_singleton.1 hx]
    exact hobtained.mono extends_advance
  | @loggedIn saved sdk c hs hc =>
    cases hs
    have hobtained : l.Obtained account.user sdk := h.stage
    exact h.ends hc (.inl rfl) (.inr rfl) rfl (hobtained.mono extends_advance) rfl
  | probeFailed hs hc =>
    cases hs
    exact h.ends hc (.inl rfl) (.inl rfl) rfl trivial rfl
  | loginFailed hs hc =>
    cases hs
    exact h.ends hc (.inl rfl) (.inr rfl) rfl trivial rfl
  | @comparing saved sdk hs | @compared saved sdk _ hs | @uncancelled saved sdk hs =>
    cases hs
    have hobtained : l.Obtained account.user sdk := h.stage
    exact h.moves rfl rfl h.directory (hobtained.mono extends_advance) rfl
  | @begun saved sdk id hs =>
    cases hs
    have hobtained : l.Obtained account.user sdk := h.stage
    exact h.moves rfl rfl h.directory ⟨hobtained.mono extends_advance, trivial⟩ rfl
  | saved hs hpresent hacts =>
    cases hs
    exact h.delegatedSave hpresent hacts
  | droppedProbe hs hc =>
    cases hs
    exact h.ends hc (.inr rfl) (.inl rfl) rfl trivial rfl
  | droppedLogin hs hc =>
    cases hs
    exact h.ends hc (.inr rfl) (.inr rfl) rfl trivial rfl

theorem ScopedFor.delegate (h : ScopedFor l r account.user s) {e : RecoveryEvent ι}
    (hstep : AccountDirectoryClient.delegate lib opt serde r s e = some s') :
    ScopedAdvance l r account dir s s' := by
  unfold AccountDirectoryClient.delegate at hstep
  split at hstep
  · cases hstep
  · next he =>
    obtain ⟨client, d, stage⟩ := s
    cases stage with
    | delegated stage =>
      dsimp only at hstep
      split at hstep
      · cases hstep
      · next hrecovery =>
        cases hstep
        exact h.recovers he hrecovery
    | _ => cases hstep

end Delegated

/-! ### The whole call -/

section Whole

variable {ι : Type} [DecidableEq ι] {l : Ledger ι} {r : GameRecovery ι} {account : Account}
  {dir : String} {s s' : ScopedState ι} {a : AccountDirectoryClient} {lib : Libraries}
  {opt : ClientOptions} {serde : Serde}

/-- A step of a call in its state directory. -/
theorem ScopedFor.step (h : ScopedFor l r account.user s) {e : ScopedEvent ι}
    (hstep : a.scopedStep lib opt serde r s e = some s') : ScopedAdvance l r account dir s s' := by
  cases e with
  | proceed => exact h.proceed hstep
  | delegated e => exact h.delegate hstep
  | submit requestId => exact h.submit hstep
  | take => exact h.take hstep
  | drop => exact h.drop hstep
  | isCancelled cancelled =>
    obtain ⟨client, d, stage⟩ := s
    cases stage with
    | found saved =>
      have hissued : l.Issued account.user saved.credentials := h.stage
      cases hstep
      cases cancelled
      · exact h.moves rfl rfl h.directory (hissued.mono extends_advance) rfl
      · exact h.fails rfl h.directory _
    | loggedIn sdk =>
      have hobtained : l.Obtained account.user sdk := h.stage
      cases hstep
      cases cancelled
      · exact h.moves rfl rfl h.directory (hobtained.mono extends_advance) rfl
      · exact h.fails rfl h.directory _
    | _ => cases hstep
  | lock outcome =>
    obtain ⟨client, d, stage⟩ := s
    cases stage with
    | anonymous =>
      simp only [AccountDirectoryClient.scopedStep] at hstep
      split at hstep
      · next hlock =>
        cases hstep
        exact h.fails rfl (h.directory.of_lock hlock) _
      · next hlock =>
        cases hstep
        exact h.moves rfl rfl (h.directory.of_lock hlock) trivial rfl
      · cases hstep
    | _ => cases hstep
  | validate result =>
    obtain ⟨client, d, stage⟩ := s
    cases stage with
    | ready =>
      cases result with
      | error e =>
        cases hstep
        exact h.fails rfl h.directory _
      | ok =>
        cases hstep
        exact h.moves rfl rfl h.directory trivial rfl
    | _ => cases hstep
  | unread =>
    obtain ⟨client, d, stage⟩ := s
    cases stage with
    | validated =>
      cases hstep
      exact h.fails rfl h.directory _
    | persisting call stage => exact h.save (fun _ hc => by cases hc) hstep
    | _ => cases hstep
  | request =>
    obtain ⟨client, d, stage⟩ := s
    cases stage with
    | missing =>
      cases hstep
      refine h.acts rfl rfl h.directory trivial ?_
      intro x hx
      rw [List.mem_singleton.1 hx]
      exact rfl
    | _ => cases hstep
  | answer result =>
    obtain ⟨client, d, stage⟩ := s
    cases stage with
    | requesting =>
      cases result with
      | error e =>
        cases hstep
        exact h.fails rfl h.directory _
      | ok sdk =>
        cases hstep
        -- the answer itself is what the ledger gains
        exact h.moves rfl rfl h.directory (List.mem_cons_self ..) rfl
    | _ => cases hstep
  | context result =>
    obtain ⟨client, d, stage⟩ := s
    cases stage with
    | authorized sdk =>
      have hobtained : l.Obtained account.user sdk := h.stage
      cases result with
      | error e =>
        cases hstep
        exact h.fails rfl h.directory _
      | ok context =>
        cases hstep
        exact h.moves rfl rfl h.directory (hobtained.mono extends_advance) rfl
    | _ => cases hstep
  | persist id =>
    obtain ⟨client, d, stage⟩ := s
    cases stage with
    | received sdk =>
      have hobtained : l.Obtained account.user sdk := h.stage
      simp only [AccountDirectoryClient.scopedStep] at hstep
      split at hstep
      · cases hstep
        exact h.fails rfl h.directory _
      · cases hstep
        exact h.moves rfl rfl h.directory ⟨hobtained.mono extends_advance, trivial⟩ rfl
    | _ => cases hstep
  | disk action =>
    obtain ⟨client, d, stage⟩ := s
    cases stage with
    | writing sdk w => exact h.saveSdk hstep
    | persisting call stage => exact h.save (fun _ hc => by cases hc) hstep
    | _ => cases hstep

omit [DecidableEq ι] in
/-- A call that has just got its state directory. -/
theorem scopedFor_entered {client : Client ι} {d : StateDir} (hd : Honest l account.user d)
    (hsession : ∀ credentials, client.session.credentials = some credentials →
      l.Issued account.user credentials) (hlogins : client.LogsInAt none) :
    ScopedFor l r account.user ⟨client, d, .entered⟩ :=
  ⟨hd, hsession, hlogins, nofun, trivial⟩

/-- An event of the rest of the server: the call's own login brings what was issued for it. -/
theorem ScopedFor.client {user : String} {client c : Client ι} {d : StateDir} {stage : ScopedStage}
    (h : ScopedFor l r user ⟨client, d, stage⟩) {e : Client.Event ι}
    (hstep : client.step lib opt e = some c) (he : e.neutral = true) :
    ScopedFor (l.client client e c) r user ⟨c, d, stage⟩ := by
  have hextends : l.Extends (l.client client e c) := extends_client
  refine ⟨h.directory.mono hextends, ?_, h.logins.neutral hstep he, ?_, h.stage.mono hextends⟩
  · intro credentials hcredentials
    have hlogins : client.LogsInAt (stage.login.map fun _ => r.login) := h.logins
    rcases Client.credentials_of_neutral hlogins hstep he with
      hsame | hnone | ⟨i, files, rfl, hallowed, hne, hlogin⟩
    · exact (h.session credentials (hsame ▸ hcredentials)).mono hextends
    · have hcredentials' : c.session.credentials = some credentials := hcredentials
      rw [hnone] at hcredentials'
      cases hcredentials'
    · obtain ⟨sdk, hsdk, rfl⟩ := Option.map_eq_some_iff.1 hallowed
      have hcredentials' : c.session.credentials = some credentials := hcredentials
      refine ⟨sdk.callback, ?_, hextends.obtained _ (h.stage.login hsdk)⟩
      simp only [Ledger.client, hne, hlogin, h.logged sdk hsdk, hcredentials', ne_eq,
        not_false_eq_true, and_self, if_true, List.mem_cons_self]
  · intro sdk hsdk
    obtain ⟨issued, hledger, -⟩ := l.client_eq client e c
    rw [hledger]
    exact h.logged sdk hsdk

end Whole

end MoenotesApi
