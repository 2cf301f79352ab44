import MoenotesApi.Operator.Documents
import MoenotesApi.Library.Files

/-!
# Reading the state directory

The readers of `operator.rs`: `private_read`, `LoginConfig::pointer`, `credentials` and
`approved_sdk`, with `StaticCredentials::from_file` and `SdkAuthorization::from_file`.

* `Pointer.Accepted`: the checks of `pointer`; the names that a call of `persist` writes pass them
  (`sdkName_accepted`, `gameName_accepted`);
* `LoginConfig.credentials_of_entries`, `LoginConfig.approvedSdk_of_entries`: what the readers
  return for a complete snapshot.
-/

namespace MoenotesApi

open JsonText Files

/-- The state directory. -/
abbrev StateDir := Directory Text

/-- `LIMIT` of `secret_file.rs`, and the bound of `private_read`. -/
def fileLimit : ℕ := 64 * 1024

/-- `secret_file::read`. -/
def secretRead (d : StateDir) (name : String) : Except ClientError Text :=
  match d.entries name with
  | some (.file isPrivate text) =>
    if fileLimit < byteLength text ∨ isPrivate = false then .error badConfig else .ok text
  | _ => .error badConfig

/-- `private_read` of `operator.rs`, which has the same checks. -/
def privateRead (d : StateDir) (name : String) : Except ClientError Text := secretRead d name

/-- `private_dir`. -/
def privateDir (d : StateDir) : Except ClientError Unit := .refuse (d.isPrivate = false) badConfig

theorem secretRead_eq_ok {d : StateDir} {name : String} {text : Text} :
    secretRead d name = .ok text ↔
      d.entries name = some (.file true text) ∧ byteLength text ≤ fileLimit := by
  unfold secretRead
  constructor
  · intro h
    split at h
    · rename_i isPrivate text' hentry
      split_ifs at h with hbad
      cases h
      push Not at hbad
      exact ⟨by simpa [hbad.2] using hentry, hbad.1⟩
    · cases h
  · rintro ⟨hentry, hlen⟩
    rw [hentry]
    simp [hlen]

/-! ### The pointer -/

/-- `current.json`. -/
def currentFile : String := "current.json"

/-- `Path::components().count()` of a Unix path. -/
def componentCount (path : List Char) : ℕ :=
  let parts := path.splitOn '/'
  (if path.head? = some '/' then 1 else 0) + (if parts.head? = some ['.'] then 1 else 0) +
    (parts.filter fun part => part ≠ [] ∧ part ≠ ['.']).length

/-- The checks of a file name in `LoginConfig::pointer`. -/
def AcceptedName (value : String) : Prop :=
  componentCount value.toList = 1 ∧ ".json".toList <:+ value.toList ∧
    (∀ c ∈ value.toList, c ≠ '/' ∧ c ≠ '\\') ∧ isHidden value = false

instance (value : String) : Decidable (AcceptedName value) :=
  haveI := List.decidableBAll (fun c => c ≠ '/' ∧ c ≠ '\\') value.toList
  inferInstanceAs (Decidable (_ ∧ _ ∧ _ ∧ _))

/-- A pointer that `LoginConfig::pointer` returns under `config`. -/
def Pointer.Accepted (p : Pointer) (config : SessionConfig) : Prop :=
  p.region = config.region ∧ p.origin = config.origin ∧ AcceptedName p.sdkFile ∧
    AcceptedName p.gameFile

instance (p : Pointer) (config : SessionConfig) : Decidable (p.Accepted config) :=
  inferInstanceAs (Decidable (_ ∧ _ ∧ _ ∧ _))

/-- `format!("sdk-{id}.json")`. -/
def Uuid.sdkName (id : Uuid) : String := "sdk-" ++ id.text ++ ".json"

/-- `format!("game-{id}.json")`. -/
def Uuid.gameName (id : Uuid) : String := "game-" ++ id.text ++ ".json"

theorem Uuid.digit_ne {id : Uuid} {c : Char} (h : c ∈ id.text.toList) : c ≠ '/' ∧ c ≠ '\\' := by
  have hall := List.all_eq_true.1 id.digits c h
  constructor <;> rintro rfl <;> revert hall <;> decide

/-- A name around a UUID that has no separator of its own and does not begin with a dot. -/
theorem acceptedName_uuid {first : Char} {stem : List Char} (id : Uuid) {name : String}
    (hname : name.toList = first :: stem ++ id.text.toList ++ ".json".toList) (hfirst : first ≠ '.')
    (hstem : ∀ c ∈ first :: stem, c ≠ '/' ∧ c ≠ '\\') : AcceptedName name := by
  have hsuffix : ∀ c ∈ ".json".toList, c ≠ '/' ∧ c ≠ '\\' := by simp
  have hchars : ∀ c ∈ name.toList, c ≠ '/' ∧ c ≠ '\\' := by
    intro c hc
    rw [hname] at hc
    rcases List.mem_append.1 hc with hc | hc
    · rcases List.mem_append.1 hc with hc | hc
      · exact hstem c hc
      · exact id.digit_ne hc
    · exact hsuffix c hc
  have hsplit : name.toList.splitOn '/' = [name.toList] := by
    apply List.splitOn_eq_singleton
    intro hc
    exact (hchars _ hc).1 rfl
  have hslash : first ≠ '/' := (hstem first List.mem_cons_self).1
  refine ⟨?_, ⟨_, hname.symm⟩, hchars, ?_⟩
  · rw [componentCount, hsplit]
    simp [hname, hslash, hfirst]
  · simp [isHidden, hname, hfirst]

theorem sdkName_accepted (id : Uuid) : AcceptedName id.sdkName :=
  @acceptedName_uuid _ "dk-".toList id _ (by simp [Uuid.sdkName]; rfl) (by decide) (by simp)

theorem gameName_accepted (id : Uuid) : AcceptedName id.gameName :=
  @acceptedName_uuid _ "ame-".toList id _ (by simp [Uuid.gameName]; rfl) (by decide) (by simp)

/-! ### The readers -/

/-- `StaticCredentials::from_file`. -/
def StaticCredentials.fromFile (serde : Serde) (d : StateDir) (name : String) :
    Except ClientError StaticCredentials := do
  let input ← secretRead d name
  match serde.credentialFile input with
  | none => .error badConfig
  | some parsed => return parsed

/-- `SdkAuthorization::from_file`. -/
def SdkAuthorization.fromFile (serde : Serde) (lib : Libraries) (d : StateDir)
    (config : SessionConfig) (name : String) : Except ClientError SdkAuthorization := do
  let bytes ← secretRead d name
  match serde.stored bytes with
  | none => .error (.new .invalidRequest)
  | some stored =>
    let target ← MoenotesApi.origin lib stored.origin
    let sdk : SdkAuthorization := ⟨stored.region, target, stored.callback⟩
    sdk.checkBinding lib config
    fromCallbackJson serde lib config sdk.callback.json

namespace LoginConfig

/-- `LoginConfig::pointer`. -/
def pointer (serde : Serde) (d : StateDir) (config : SessionConfig) :
    Except ClientError Pointer := do
  let bytes ← privateRead d currentFile
  match serde.pointer bytes with
  | none => .error badConfig
  | some p =>
    .refuse (¬ p.Accepted config) badConfig
    return p

/-- `LoginConfig::credentials`. -/
def credentials (serde : Serde) (d : StateDir) (config : SessionConfig) :
    Except ClientError (Option StaticCredentials) :=
  match d.entries currentFile with
  | none => .ok none
  | some .other => .error badConfig
  | some (.file _ _) => do
    let p ← pointer serde d config
    let saved ← StaticCredentials.fromFile serde d p.gameFile
    return some saved

/-- `LoginConfig::approved_sdk`. -/
def approvedSdk (serde : Serde) (lib : Libraries) (d : StateDir) (config : SessionConfig) :
    Except ClientError SdkAuthorization := do
  let p ← pointer serde d config
  SdkAuthorization.fromFile serde lib d config p.sdkFile

end LoginConfig

/-! ### What the readers return for a snapshot -/

section Readers

variable {serde : Serde} {lib : Libraries} {d : StateDir} {config : SessionConfig} {p : Pointer}
variable {saved : StaticCredentials} {sdk : SdkAuthorization}

theorem LoginConfig.pointer_of_entry (hcurrent : d.entries currentFile = some (.file true p.json))
    (hlen : byteLength p.json ≤ fileLimit) (hp : p.Accepted config) :
    pointer serde d config = .ok p := by
  have hread : privateRead d currentFile = .ok p.json := secretRead_eq_ok.2 ⟨hcurrent, hlen⟩
  simp only [pointer, Except.bind_eq_ok, hread]
  refine ⟨p.json, rfl, ?_⟩
  rw [serde.pointer_json]
  simp only [Except.bind_eq_ok, Except.refuse_eq_ok, Except.pure_eq_ok]
  exact ⟨(), not_not.2 hp, trivial⟩

theorem LoginConfig.credentials_of_entries
    (hcurrent : d.entries currentFile = some (.file true p.json))
    (hlen : byteLength p.json ≤ fileLimit) (hp : p.Accepted config)
    (hgame : d.entries p.gameFile = some (.file true saved.json))
    (hsaved : byteLength saved.json ≤ fileLimit) :
    credentials serde d config = .ok (some saved) := by
  have hfile : StaticCredentials.fromFile serde d p.gameFile = .ok saved := by
    simp only [StaticCredentials.fromFile, Except.bind_eq_ok]
    refine ⟨saved.json, secretRead_eq_ok.2 ⟨hgame, hsaved⟩, ?_⟩
    rw [serde.credentialFile_json]
    rfl
  simp only [credentials, hcurrent, Except.bind_eq_ok]
  exact ⟨p, pointer_of_entry hcurrent hlen hp, saved, hfile, rfl⟩

/-- An authorization that was imported under `config` is one that its region and origin accept. -/
theorem SdkAuthorization.fromCallbackJson_eq_ok {json : Text}
    (h : fromCallbackJson serde lib config json = .ok sdk) :
    config.validate lib = .ok () ∧ config.platform = "android" ∧ sdk.region = config.region ∧
      MoenotesApi.origin lib config.origin = .ok sdk.origin ∧
      fromCallback lib config sdk.callback = .ok sdk := by
  simp only [fromCallbackJson, Except.bind_eq_ok, Except.refuse_eq_ok] at h
  obtain ⟨⟨⟩, hvalid, -, hplatform, h⟩ := h
  push Not at hplatform
  cases hcallback : serde.callback json with
  | none =>
    rw [hcallback] at h
    cases h
  | some callback =>
    rw [hcallback] at h
    have hfull := h
    simp only [fromCallback, Except.bind_eq_ok, Except.pure_eq_ok] at h
    obtain ⟨-, -, -, -, target, htarget, rfl⟩ := h
    exact ⟨hvalid, hplatform.1, rfl, htarget, hfull⟩

theorem SdkAuthorization.byteLength_callback_le (sdk : SdkAuthorization) :
    byteLength sdk.callback.json ≤ byteLength sdk.json := by
  simp only [SdkAuthorization.json, byteLength_append]
  omega

/-- An authorization comes back from the file it was saved to, if it was imported under the same
configuration. -/
theorem SdkAuthorization.fromFile_of_entry {name : String} {json : Text}
    (hurl : ∀ value target, MoenotesApi.origin lib value = .ok target →
      MoenotesApi.origin lib target = .ok target)
    (hauth : fromCallbackJson serde lib config json = .ok sdk) (hjp : config.region ≠ "jp")
    (hentry : d.entries name = some (.file true sdk.json))
    (hlen : byteLength sdk.json ≤ fileLimit) :
    fromFile serde lib d config name = .ok sdk := by
  obtain ⟨hvalid, hplatform, hregion, horigin, hcallback⟩ := fromCallbackJson_eq_ok hauth
  have hbound : byteLength sdk.callback.json ≤ 64 * 1024 :=
    (sdk.byteLength_callback_le).trans hlen
  have hbinding : sdk.checkBinding lib config = .ok () := by
    simp only [checkBinding, Except.bind_eq_ok, Except.refuse_eq_ok]
    refine ⟨(), by simp [hjp, hplatform, hregion], sdk.origin, horigin, ?_⟩
    simp
  have himport : fromCallbackJson serde lib config sdk.callback.json = .ok sdk := by
    simp only [fromCallbackJson, Except.bind_eq_ok, Except.refuse_eq_ok]
    refine ⟨(), hvalid, (), ?_, ?_⟩
    · simp [hplatform, Nat.not_lt.2 hbound]
    · rw [serde.callback_json]
      exact hcallback
  simp only [fromFile, Except.bind_eq_ok]
  refine ⟨sdk.json, secretRead_eq_ok.2 ⟨hentry, hlen⟩, ?_⟩
  rw [serde.stored_json]
  simp only [Except.bind_eq_ok]
  exact ⟨sdk.origin, hurl _ _ horigin, (), hbinding, himport⟩

theorem LoginConfig.approvedSdk_of_entries {json : Text}
    (hurl : ∀ value target, origin lib value = .ok target → origin lib target = .ok target)
    (hcurrent : d.entries currentFile = some (.file true p.json))
    (hlen : byteLength p.json ≤ fileLimit) (hp : p.Accepted config)
    (hauth : SdkAuthorization.fromCallbackJson serde lib config json = .ok sdk)
    (hjp : config.region ≠ "jp") (hentry : d.entries p.sdkFile = some (.file true sdk.json))
    (hsdk : byteLength sdk.json ≤ fileLimit) : approvedSdk serde lib d config = .ok sdk := by
  simp only [approvedSdk, Except.bind_eq_ok]
  exact ⟨p, pointer_of_entry hcurrent hlen hp,
    SdkAuthorization.fromFile_of_entry hurl hauth hjp hentry hsdk⟩

end Readers

end MoenotesApi
