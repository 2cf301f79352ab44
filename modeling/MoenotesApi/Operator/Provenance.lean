import MoenotesApi.Operator.AccountLogin
import MoenotesApi.Operator.Identity

/-!
# The files of a user

Which files the calls of `recover` for one user write, and what can be read from a state directory that
holds no others.

* `WrittenFor`, `Honest`: such files, and such a directory;
* `Honest.credentials`, `Honest.approvedSdk`, `Honest.initialSdk`: what the readers of the operator
  return was obtained or issued for the user;
* `SavesFor.step`: `persist` keeps a directory so.
-/

namespace MoenotesApi

open JsonText Files

/-- The visible files that calls for a user write. -/
inductive WrittenFor {ι : Type} (l : Ledger ι) (user : String) : String → Text → Prop
  | lock : WrittenFor l user lockFile []
  | initial {sdk : SdkAuthorization} (h : l.Obtained user sdk) :
      WrittenFor l user initialSdk sdk.json
  | sdk {id : Uuid} {sdk : SdkAuthorization} (h : l.Obtained user sdk) :
      WrittenFor l user id.sdkName sdk.json
  | game {id : Uuid} {saved : StaticCredentials} (h : l.Issued user saved.credentials) :
      WrittenFor l user id.gameName saved.json
  | pointer {region origin : String} {id : Uuid} :
      WrittenFor l user currentFile (Pointer.json ⟨region, origin, id.sdkName, id.gameName⟩)

/-- A directory with files for one user only. -/
def Honest {ι : Type} (l : Ledger ι) (user : String) (d : StateDir) : Prop :=
  ∀ name isPrivate text, d.entries name = some (.file isPrivate text) → isHidden name = false →
    WrittenFor l user name text

/-- The later ledger has forgotten nothing about authorizations and credentials. -/
structure Ledger.Extends {ι : Type} (l l' : Ledger ι) : Prop where
  obtained : ∀ x ∈ l.obtained, x ∈ l'.obtained
  issued : ∀ x ∈ l.issued, x ∈ l'.issued

section Files

variable {ι : Type} {l l' : Ledger ι} {user : String} {d d' : StateDir} {serde : Serde}
  {lib : Libraries} {config : SessionConfig} {name : String} {text : Text}

theorem Ledger.Extends.refl (l : Ledger ι) : l.Extends l := ⟨fun _ h => h, fun _ h => h⟩

theorem Ledger.Obtained.mono {sdk : SdkAuthorization} (h : l.Obtained user sdk)
    (hl : l.Extends l') : l'.Obtained user sdk :=
  hl.obtained _ h

theorem Ledger.Issued.mono {credentials : Credentials} (h : l.Issued user credentials)
    (hl : l.Extends l') : l'.Issued user credentials := by
  obtain ⟨callback, hissued, hobtained⟩ := h
  exact ⟨callback, hl.issued _ hissued, hl.obtained _ hobtained⟩

theorem WrittenFor.mono (h : WrittenFor l user name text) (hl : l.Extends l') :
    WrittenFor l' user name text := by
  cases h with
  | lock => exact .lock
  | initial h => exact .initial (h.mono hl)
  | sdk h => exact .sdk (h.mono hl)
  | game h => exact .game (h.mono hl)
  | pointer => exact .pointer

theorem Honest.mono (h : Honest l user d) (hl : l.Extends l') : Honest l' user d :=
  fun name isPrivate text hentry hname => (h name isPrivate text hentry hname).mono hl

/-! ### The names of the files -/

theorem head_sdkName (id : Uuid) : id.sdkName.toList.head? = some 's' := by
  simp [Uuid.sdkName]

theorem head_gameName (id : Uuid) : id.gameName.toList.head? = some 'g' := by
  simp [Uuid.gameName]

theorem WrittenFor.sdk_inv {id : Uuid} (h : WrittenFor l user name text) (hname : name = id.sdkName) :
    ∃ sdk : SdkAuthorization, text = sdk.json ∧ l.Obtained user sdk := by
  have hhead := head_sdkName id
  rw [← hname] at hhead
  cases h with
  | sdk h => exact ⟨_, rfl, h⟩
  | game => simp [head_gameName] at hhead
  | lock => exact absurd hhead (by decide)
  | initial => exact absurd hhead (by decide)
  | pointer => exact absurd hhead (by decide)

theorem WrittenFor.game_inv {id : Uuid} (h : WrittenFor l user name text)
    (hname : name = id.gameName) :
    ∃ saved : StaticCredentials, text = saved.json ∧ l.Issued user saved.credentials := by
  have hhead := head_gameName id
  rw [← hname] at hhead
  cases h with
  | game h => exact ⟨_, rfl, h⟩
  | sdk => simp [head_sdkName] at hhead
  | lock => exact absurd hhead (by decide)
  | initial => exact absurd hhead (by decide)
  | pointer => exact absurd hhead (by decide)

theorem WrittenFor.initial_inv (h : WrittenFor l user name text) (hname : name = initialSdk) :
    ∃ sdk : SdkAuthorization, text = sdk.json ∧ l.Obtained user sdk := by
  have hhead : name.toList.head? = some 'i' := by
    rw [hname]
    decide
  cases h with
  | initial h => exact ⟨_, rfl, h⟩
  | sdk => simp [head_sdkName] at hhead
  | game => simp [head_gameName] at hhead
  | lock => exact absurd hhead (by decide)
  | pointer => exact absurd hhead (by decide)

theorem WrittenFor.pointer_inv (h : WrittenFor l user name text) (hname : name = currentFile) :
    ∃ region origin, ∃ id : Uuid,
      text = Pointer.json ⟨region, origin, id.sdkName, id.gameName⟩ := by
  have hhead : name.toList.head? = some 'c' := by
    rw [hname]
    decide
  cases h with
  | pointer => exact ⟨_, _, _, rfl⟩
  | sdk => simp [head_sdkName] at hhead
  | game => simp [head_gameName] at hhead
  | lock => exact absurd hhead (by decide)
  | initial => exact absurd hhead (by decide)

/-! ### Reading the files of a user -/

/-- A file that is read was written for the user. -/
theorem Honest.of_secretRead (h : Honest l user d) (hname : isHidden name = false)
    (hread : secretRead d name = .ok text) : WrittenFor l user name text :=
  h name true text (secretRead_eq_ok.1 hread).1 hname

/-- The pointer names a snapshot. -/
theorem Honest.pointer (h : Honest l user d) {p : Pointer}
    (hp : LoginConfig.pointer serde d config = .ok p) :
    ∃ id : Uuid, p.sdkFile = id.sdkName ∧ p.gameFile = id.gameName := by
  simp only [LoginConfig.pointer, Except.bind_eq_ok] at hp
  obtain ⟨text, hread, hp⟩ := hp
  obtain ⟨region, origin, id, rfl⟩ :=
    (h.of_secretRead (by decide) hread).pointer_inv rfl
  rw [serde.pointer_json] at hp
  simp only [Except.bind_eq_ok, Except.pure_eq_ok] at hp
  obtain ⟨-, -, rfl⟩ := hp
  exact ⟨id, rfl, rfl⟩

/-- An authorization that is read is the one that was written, up to its region and origin. -/
theorem fromFile_callback {sdk : SdkAuthorization}
    (hsdk : SdkAuthorization.fromFile serde lib d config name = .ok sdk)
    (hwritten : ∀ text, secretRead d name = .ok text →
      ∃ sdk' : SdkAuthorization, text = sdk'.json ∧ l.Obtained user sdk') :
    l.Obtained user sdk := by
  simp only [SdkAuthorization.fromFile, Except.bind_eq_ok] at hsdk
  obtain ⟨text, hread, hsdk⟩ := hsdk
  obtain ⟨sdk', rfl, hobtained⟩ := hwritten text hread
  rw [serde.stored_json] at hsdk
  simp only [Except.bind_eq_ok] at hsdk
  obtain ⟨target, -, -, -, hsdk⟩ := hsdk
  simp only [SdkAuthorization.fromCallbackJson, Except.bind_eq_ok, serde.callback_json] at hsdk
  obtain ⟨-, -, -, -, hsdk⟩ := hsdk
  simp only [SdkAuthorization.fromCallback, Except.bind_eq_ok, Except.pure_eq_ok] at hsdk
  obtain ⟨-, -, -, -, target', -, rfl⟩ := hsdk
  exact hobtained

theorem Honest.credentials (h : Honest l user d) {saved : StaticCredentials}
    (hsaved : LoginConfig.credentials serde d config = .ok (some saved)) :
    l.Issued user saved.credentials := by
  unfold LoginConfig.credentials at hsaved
  split at hsaved
  · cases hsaved
  · cases hsaved
  · simp only [Except.bind_eq_ok, Except.pure_eq_ok, Option.some.injEq] at hsaved
    obtain ⟨p, hp, saved', hsaved, rfl⟩ := hsaved
    obtain ⟨id, -, hgame⟩ := h.pointer hp
    simp only [StaticCredentials.fromFile, Except.bind_eq_ok] at hsaved
    obtain ⟨text, hread, hsaved⟩ := hsaved
    rw [hgame] at hread
    obtain ⟨written, rfl, hissued⟩ :=
      (h.of_secretRead (gameName_accepted id).2.2.2 hread).game_inv rfl
    rw [serde.credentialFile_json] at hsaved
    cases hsaved
    exact hissued

theorem Honest.approvedSdk (h : Honest l user d) {sdk : SdkAuthorization}
    (hsdk : LoginConfig.approvedSdk serde lib d config = .ok sdk) : l.Obtained user sdk := by
  simp only [LoginConfig.approvedSdk, Except.bind_eq_ok] at hsdk
  obtain ⟨p, hp, hsdk⟩ := hsdk
  obtain ⟨id, hfile, -⟩ := h.pointer hp
  rw [hfile] at hsdk
  exact fromFile_callback hsdk fun text hread =>
    (h.of_secretRead (sdkName_accepted id).2.2.2 hread).sdk_inv rfl

theorem Honest.initialSdk (h : Honest l user d) {sdk : SdkAuthorization}
    (hsdk : SdkAuthorization.fromFile serde lib d config MoenotesApi.initialSdk = .ok sdk) :
    l.Obtained user sdk :=
  fromFile_callback hsdk fun _ hread => (h.of_secretRead (by decide) hread).initial_inv rfl

/-! ### Writing the files of a user -/

theorem honest_createdDir : Honest l user createdDir := nofun

theorem Honest.of_agrees (h : Honest l user d) (hagrees : d.Agrees d') : Honest l user d' := by
  intro name isPrivate text hentry hname
  rw [hagrees name hname] at hentry
  exact h name isPrivate text hentry hname

/-- A new file that was written for the user. -/
theorem Honest.of_written (h : Honest l user d) {target : String} {content : Text}
    (hwritten : WrittenFor l user target content)
    (hcontent : d'.entries target = some (.file true content))
    (hothers : ∀ name, isHidden name = false → name ≠ target → d'.entries name = d.entries name) :
    Honest l user d' := by
  intro name isPrivate text hentry hname
  by_cases htarget : name = target
  · subst htarget
    rw [hcontent] at hentry
    cases hentry
    exact hwritten
  · rw [hothers name hname htarget] at hentry
    exact h name isPrivate text hentry hname

theorem Honest.of_lock (h : Honest l user d) {outcome : LockOutcome}
    {result : Except ClientError Unit} (hlock : LoginConfig.lock d outcome = (d', result)) :
    Honest l user d' := by
  have hset : Honest l user (d.set lockFile (some (.file true []))) :=
    h.of_written .lock (d.set_self _ _) fun name _ hname => d.set_of_ne _ hname
  unfold LoginConfig.lock at hlock
  split at hlock
  · cases hlock
    exact h
  · split at hlock
    all_goals
      cases hlock
      first
        | exact h
        | exact hset

end Files

/-! ### Saving a session for a user -/

/-- What a call puts into a file belongs to the user. -/
def FileFor {ι : Type} (l : Ledger ι) (user : String) (call : PersistCall) : PersistFile → Prop
  | .sdk | .pointer => l.Obtained user call.sdk
  | .game saved => l.Obtained user call.sdk ∧ l.Issued user saved.credentials

/-- What a call is about to write belongs to the user. -/
def SavesFor {ι : Type} (l : Ledger ι) (user : String) (call : PersistCall) :
    PersistStage → Prop
  | .checking file | .writing file _ => FileFor l user call file
  | .exporting | .rechecking | .switched => l.Obtained user call.sdk

section Saving

variable {ι : Type} {l l' : Ledger ι} {user : String} {d d' : StateDir} {call : PersistCall}
  {stage stage' : PersistStage} {file : PersistFile} {action : PersistAction ι}
  {p : PersistProgress}

theorem FileFor.mono (h : FileFor l user call file) (hl : l.Extends l') :
    FileFor l' user call file := by
  cases file with
  | sdk => exact Ledger.Obtained.mono h hl
  | pointer => exact Ledger.Obtained.mono h hl
  | game => exact ⟨h.1.mono hl, h.2.mono hl⟩

theorem SavesFor.mono (h : SavesFor l user call stage) (hl : l.Extends l') :
    SavesFor l' user call stage := by
  cases stage with
  | checking => exact FileFor.mono h hl
  | writing => exact FileFor.mono h hl
  | exporting => exact Ledger.Obtained.mono h hl
  | rechecking => exact Ledger.Obtained.mono h hl
  | switched => exact Ledger.Obtained.mono h hl

theorem FileFor.obtained (h : FileFor l user call file) : l.Obtained user call.sdk := by
  cases file with
  | sdk => exact h
  | pointer => exact h
  | game => exact h.1

theorem FileFor.writtenFor (h : FileFor l user call file) :
    WrittenFor l user (call.job file).target (call.job file).content := by
  cases file with
  | sdk => exact .sdk h
  | pointer => exact .pointer
  | game => exact .game h.2

/-- A step of `persist` for a user. -/
theorem SavesFor.step (h : SavesFor l user call stage) (hd : Honest l user d)
    (hholds : stage.Holds call d)
    (hmemory : ∀ client, action = .proceed client →
      ∀ credentials, client.session.credentials = some credentials → l.Issued user credentials)
    (hstep : persistStep call d stage action = some (d', p)) :
    Honest l user d' ∧ ∀ stage', p = .running stage' →
      SavesFor l user call stage' ∧ stage'.Holds call d' := by
  have heffect := PersistEffect.of_step hholds hstep
  refine ⟨?_, ?_⟩
  · cases heffect with
    | refused agrees => exact hd.of_agrees agrees
    | written _ agrees => exact hd.of_agrees agrees
    | moved content _ others => exact hd.of_written (FileFor.writtenFor h) content others
    | checked _ same => exact same ▸ hd
    | exported _ same => exact same ▸ hd
    | rechecked _ same => exact same ▸ hd
    | finished same => exact same ▸ hd
  · rintro stage' rfl
    refine ⟨?_, heffect.holds⟩
    cases heffect with
    | checked => exact h
    | written => exact h
    | @moved file =>
      have hobtained := @FileFor.obtained _ _ _ _ file h
      cases file <;> exact hobtained
    | exported export_eq =>
      exact ⟨h, hmemory _ rfl _ (Client.exported_credentials export_eq)⟩
    | rechecked => exact h

end Saving

end MoenotesApi
