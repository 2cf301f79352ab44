import Mathlib.Data.List.DropRight
import MoenotesApi.Client.Session
import MoenotesApi.Library.SortedMap
import MoenotesApi.Managed.Accounts
import MoenotesApi.Server.Projection

/-!
# The configuration file

`config.rs`: how the text of the configuration file becomes the configurations of the backends, one
for the top-level session and one for each region.  The TOML parser, with the fields that it fills in
(`serde(default)`), is a parameter, and so is the file system.  The fields that nothing here reads
(the listening address, the access log) are left out.

* `components`, `join`, `parent`, `normalize`: paths, as `std::path` takes them apart;
* `Environment`: what the file system answers; `stateIdentity`: when two state directories are one;
* `Config`, `RegionConfig` and their parts, with the defaults of the fields;
* `Config.validateAndResolve`, `checkInlinePermissions`, `Config.addRegion`, `Config.fromText`.
-/

namespace MoenotesApi

/-! ### Paths -/

namespace Path

/-- `Component`, without the prefixes of Windows. -/
inductive Component
  | rootDir
  | curDir
  | parentDir
  | normal (name : List Char)
  deriving DecidableEq, Repr

def Component.text : Component → String
  | .rootDir => "/"
  | .curDir => "."
  | .parentDir => ".."
  | .normal name => String.ofList name

/-- `Path::is_absolute`. -/
def isAbsolute (path : String) : Bool := path.toList.head? = some '/'

/-- What stands between two separators; nothing and a dot are no component. -/
def component (piece : List Char) : Option Component :=
  if piece = [] ∨ piece = ['.'] then none
  else if piece = ['.', '.'] then some .parentDir
  else some (.normal piece)

/-- `Path::components`: a dot counts at the beginning of a relative path only. -/
def components (path : String) : List Component :=
  let pieces := path.toList.splitOn '/'
  (if isAbsolute path then [.rootDir] else if pieces.head? = some ['.'] then [.curDir] else []) ++
    pieces.filterMap component

/-- `Path::join`: an absolute path replaces the base. -/
def join (base path : String) : String :=
  if isAbsolute path then path
  else if base = "" ∨ base.toList.getLast? = some '/' then base ++ path
  else base ++ "/" ++ path

/-- `Path::parent`. -/
def parent (path : String) : Option String :=
  let parts := components path
  if parts.getLast? = none ∨ parts.getLast? = some .rootDir then none
  else some (parts.dropLast.foldl (fun base part => join base part.text) "")

/-- `PathBuf::pop`. -/
def pop (parts : List Component) : List Component :=
  if parts.getLast? = some .rootDir then parts else parts.dropLast

/-- The loop of `state_identity`: a parent directory takes one component away. -/
def normalize (parts : List Component) : List Component :=
  parts.foldl (fun done part =>
    match part with
    | .rootDir => [.rootDir]
    | .curDir => done
    | .parentDir => pop done
    | .normal name => done ++ [.normal name]) []

end Path

/-- What `fs::canonicalize` answers. -/
inductive Canonical
  | found (path : String)
  | missing
  | failed
  deriving DecidableEq, Repr

/-- The process and the file system: `env::current_dir`, `fs::canonicalize`, and whether a path is a
regular file that neither the group nor others can open. -/
structure Environment where
  currentDir : Option String
  canonicalize : String → Canonical
  privateFile : String → Bool

/-- `config_file::absolute`. -/
def absolute (env : Environment) (path : String) : Except ClientError String :=
  if Path.isAbsolute path then .ok path
  else
    match env.currentDir with
    | none => .error badConfig
    | some dir => .ok (Path.join dir path)

/-- `state_identity`, as the components by which paths are compared. -/
def stateIdentity (env : Environment) (path : String) : Except ClientError (List Path.Component) :=
  match env.canonicalize path with
  | .found path => .ok (Path.components path)
  | .missing => (absolute env path).map fun path => Path.normalize (Path.components path)
  | .failed => .error badConfig

/-! ### Regions -/

inductive Region
  | tw
  | en
  | kr
  | jp
  deriving DecidableEq, Repr

namespace Region

/-- The position in the order that `Ord` derives. -/
def index : Region → ℕ
  | tw => 0
  | en => 1
  | kr => 2
  | jp => 3

theorem index_injective : Function.Injective index := by
  intro a b h
  cases a <;> cases b <;> first | rfl | cases h

instance : LinearOrder Region := LinearOrder.lift' index index_injective

/-- `Region::from_session`: three names of one region. -/
def fromSession (region : String) : Option Region :=
  if region = "hk" ∨ region = "tw" ∨ region = "hk-tw-mo" then some tw
  else if region = "en" then some en
  else if region = "kr" then some kr
  else if region = "jp" then some jp
  else none

end Region

/-! ### The parts of a configuration -/

/-- `VersionSyncConfig`. -/
structure VersionSyncConfig where
  enabled : Bool := true
  intervalSeconds : ℕ := 60
  followClientUpdates : Bool := false
  deriving DecidableEq, Repr

/-- `RecoveryConfig`. -/
structure RecoveryConfig where
  enabled : Bool := false
  cooldownSeconds : ℕ := 300
  deriving DecidableEq, Repr

/-- `LoginConfig`; `context` and `sdkHttp` say whether the tables stand in the file itself. -/
structure LoginConfig where
  contextFile : String := ""
  context : Bool := false
  sdkHttpFile : Option String := none
  sdkHttp : Bool := false
  stateDir : String
  deriving DecidableEq, Repr

/-- `LoginConfig::validate_sources`: one source for each table, and a state directory. -/
def LoginConfig.validateSources (login : LoginConfig) : Except ClientError Unit :=
  .refuse (login.context = (login.contextFile ≠ "" : Bool) ∨
      login.sdkHttp ∧ login.sdkHttpFile.isSome ∨ login.sdkHttpFile = some "" ∨
      login.stateDir = "")
    badConfig

/-- `LoginConfig::has_sdk_http`. -/
def LoginConfig.hasSdkHttp (login : LoginConfig) : Bool := login.sdkHttp || login.sdkHttpFile.isSome

/-- `RegionConfig`. -/
structure RegionConfig where
  session : SessionConfig
  credentialsFile : Option String := none
  login : Option LoginConfig := none
  accounts : Option AccountsConfig := none
  recovery : RecoveryConfig := {}
  versionSync : VersionSyncConfig := {}
  deriving DecidableEq, Repr

/-- `BTreeMap<Region, RegionConfig>`. -/
structure RegionMap where
  entries : List (Region × RegionConfig) := []
  sorted : SortedMap.Sorted entries := by exact .nil

def RegionMap.insert (regions : RegionMap) (region : Region) (settings : RegionConfig) :
    RegionMap where
  entries := SortedMap.insert region settings regions.entries
  sorted := regions.sorted.insert region settings

/-- `Config`. -/
structure Config where
  enableExperimentalRaw : Bool := false
  responseMode : Option Projection.ResponseMode := none
  login : Option LoginConfig := none
  accounts : Option AccountsConfig := none
  recovery : RecoveryConfig := {}
  versionSync : VersionSyncConfig := {}
  apiKeyFile : String := ""
  apiKey : Option String := none
  credentialsFile : Option String := none
  session : SessionConfig
  regions : RegionMap := {}
  timeoutSeconds : ℕ := 10
  minimumIntervalMs : ℕ := 1000
  queueCapacity : ℕ := 32
  cacheTtlSeconds : ℕ := 15
  cacheCapacity : ℕ := 1024

/-! ### Validation -/

/-- `parent.join(file)` for a relative path. -/
def resolve (parent path : String) : String :=
  if Path.isAbsolute path then path else Path.join parent path

/-- `resolve`, except that no path remains no path. -/
def resolveNonempty (parent path : String) : String :=
  if path = "" then path else resolve parent path

/-- The login part of `validate_and_resolve`. -/
def LoginConfig.resolved (login : LoginConfig) (parent : String) : Except ClientError LoginConfig :=
  do
  login.validateSources
  return { login with
    contextFile := resolveNonempty parent login.contextFile
    stateDir := resolve parent login.stateDir
    sdkHttpFile := login.sdkHttpFile.map (resolve parent) }

/-- The accounts part of `validate_and_resolve`.  The default directory is that of the other regions;
it is compared by its components. -/
def AccountsConfig.resolved (accounts : AccountsConfig) (region parent : String) :
    Except ClientError AccountsConfig := do
  .refuse (accounts.strategy = .roundRobin ∧ Region.fromSession region = none) badConfig
  let directory :=
    if region = "jp" ∧
        Path.components accounts.directory = Path.components "/accounts/international" then
      "/accounts/jp"
    else accounts.directory
  let accounts := { accounts with directory := directory }
  .refuse (accounts.valid = false) badConfig
  return { accounts with directory := resolve parent accounts.directory }

namespace Config

/-- The bounds and the combinations that `validate_and_resolve` checks first. -/
def rejected (config : Config) : Prop :=
  16384 < config.cacheCapacity ∨
    3600 < config.cacheTtlSeconds ∨
    60000 < config.minimumIntervalMs ∨
    4096 < config.queueCapacity ∨
    config.timeoutSeconds = 0 ∨
    120 < config.timeoutSeconds ∨
    config.recovery.cooldownSeconds < 60 ∨
    86400 < config.recovery.cooldownSeconds ∨
    ¬ (30 ≤ config.versionSync.intervalSeconds ∧ config.versionSync.intervalSeconds ≤ 86400) ∨
    config.recovery.enabled ∧ config.login = none ∨
    config.login.isSome ∧ config.credentialsFile.isSome ∨
    config.session.region ≠ "jp" ∧ config.accounts.isSome ∧ config.login = none ∨
    config.session.region ≠ "jp" ∧ config.accounts.isSome ∧
      config.login.any (fun l => !l.hasSdkHttp) ∨
    config.session.region = "jp" ∧ (config.login.isSome ∨ config.recovery.enabled) ∨
    config.accounts.isSome ∧ config.credentialsFile.isSome ∨
    config.apiKey.isSome = (config.apiKeyFile ≠ "" : Bool) ∨
    config.enableExperimentalRaw ∧ config.responseMode.any (fun m => m ≠ .raw)

instance (config : Config) : Decidable config.rejected := by
  unfold rejected
  infer_instance

/-- The defaults are within the bounds: a session and a key file are enough. -/
theorem not_rejected_default (session : SessionConfig) {file : String} (h : file ≠ "") :
    ¬ rejected { session := session, apiKeyFile := file } := by
  simp [rejected, h]

/-- `Config::validate_and_resolve`: the checked configuration with its paths resolved. -/
def validateAndResolve (lib : Libraries) (env : Environment) (path : String) (config : Config) :
    Except ClientError Config := do
  .refuse config.rejected badConfig
  config.session.validate lib
  let configPath ← absolute env path
  let parent := (Path.parent configPath).getD "."
  let login ← config.login.mapM (·.resolved parent)
  let accounts ← config.accounts.mapM (·.resolved config.session.region parent)
  return { config with
    apiKeyFile := resolveNonempty parent config.apiKeyFile
    credentialsFile := config.credentialsFile.map (resolve parent)
    login := login
    accounts := accounts }

/-- `Config::for_region`. -/
def forRegion (config : Config) (settings : RegionConfig) : Config :=
  { config with
    regions := {}
    session := settings.session
    credentialsFile := settings.credentialsFile
    login := settings.login
    accounts := settings.accounts
    recovery := settings.recovery
    versionSync := settings.versionSync }

/-- The part of a configuration that a region keeps. -/
def regionConfig (config : Config) : RegionConfig where
  session := config.session
  credentialsFile := config.credentialsFile
  login := config.login
  accounts := config.accounts
  recovery := config.recovery
  versionSync := config.versionSync

end Config

/-! ### Inline secrets -/

/-- `toml::Value`; numbers, dates and arrays are not told apart. -/
inductive TomlValue
  | string (text : String)
  | table (entries : List (String × TomlValue))
  | other

namespace TomlValue

/-- `Value::get`. -/
def get (key : String) : TomlValue → Option TomlValue
  | table entries => entries.lookup key
  | _ => none

/-- A nonempty string. -/
def filled : TomlValue → Bool
  | string text => text ≠ ""
  | _ => false

/-- A table with a nonempty string in it. -/
def anyFilled : TomlValue → Bool
  | table entries => entries.any fun e => e.2.filled
  | _ => false

/-- A login table that names two sources for one thing. -/
def bothSources (login : TomlValue) : Bool :=
  ((login.get "context").isSome && (login.get "context_file").isSome) ||
    ((login.get "sdk_http").isSome && (login.get "sdk_http_file").isSome)

/-- `has_inline` of `check_inline_permissions`. -/
def hasInline (value : TomlValue) : Bool :=
  (value.get "api_key").any filled ||
    (value.get "login").any fun login =>
      (login.get "context").any anyFilled ||
      (login.get "sdk_http").any fun sdk =>
        (sdk.get "app_key").any filled || (sdk.get "common").any anyFilled

end TomlValue

mutual

/-- `check_inline_permissions`: a file with secrets in it is private, and so on for each region. -/
def checkInlinePermissions (env : Environment) (path : String) :
    TomlValue → Except ClientError Unit
  | .table entries => do
    checkRegionTables env path entries
    .refuse (TomlValue.hasInline (.table entries) ∧ env.privateFile path = false) badConfig
  | _ => .ok ()

/-- The table under `regions`, if there is one. -/
def checkRegionTables (env : Environment) (path : String) :
    List (String × TomlValue) → Except ClientError Unit
  | [] => .ok ()
  | (key, value) :: entries =>
    if key = "regions" then
      match value with
      | .table regions => checkEachRegion env path regions
      | _ => .error badConfig
    else checkRegionTables env path entries

def checkEachRegion (env : Environment) (path : String) :
    List (String × TomlValue) → Except ClientError Unit
  | [] => .ok ()
  | (_, region) :: regions => do
    checkInlinePermissions env path region
    .refuse ((region.get "login").any TomlValue.bothSources) badConfig
    checkEachRegion env path regions

end

/-! ### The whole file -/

/-- `toml::from_str` at the types `Config` and `toml::Value`. -/
structure Toml where
  config : String → Option Config
  value : String → Option TomlValue

/-- `trim_end_matches('/')`. -/
def trimSlashes (text : String) : List Char := text.toList.rdropWhile (· = '/')

namespace Config

/-- The variables of the loop over the regions. -/
structure Progress where
  config : Config
  origins : List (List Char)
  stateDirs : List (List Path.Component)

/-- The identity of the state directory of a login must be new. -/
def addStateDir (env : Environment) (stateDirs : List (List Path.Component)) :
    Option LoginConfig → Except ClientError (List (List Path.Component))
  | none => .ok stateDirs
  | some login => do
    let stateDir ← stateIdentity env login.stateDir
    .refuse (stateDir ∈ stateDirs) badConfig
    return stateDirs ++ [stateDir]

/-- The body of the loop over the regions. -/
def addRegion (lib : Libraries) (env : Environment) (path : String) (progress : Progress)
    (entry : Region × RegionConfig) : Except ClientError Progress := do
  .refuse (Region.fromSession progress.config.session.region = some entry.1 ∨
      Region.fromSession entry.2.session.region ≠ some entry.1)
    badConfig
  let regional ← (progress.config.forRegion entry.2).validateAndResolve lib env path
  let origin := trimSlashes regional.session.origin
  .refuse (origin ∈ progress.origins) badConfig
  let stateDirs ← addStateDir env progress.stateDirs regional.login
  return {
    config := { progress.config with
      regions := progress.config.regions.insert entry.1 regional.regionConfig }
    origins := progress.origins ++ [origin]
    stateDirs := stateDirs }

/-- `Config::from_text`. -/
def fromText (lib : Libraries) (toml : Toml) (env : Environment) (text path : String) :
    Except ClientError Config := do
  let config ← (toml.config text).elim (.error badConfig) .ok
  let value ← (toml.value text).elim (.error badConfig) .ok
  .refuse ((value.get "api_key").isSome ∧ (value.get "api_key_file").isSome) badConfig
  .refuse ((value.get "login").any TomlValue.bothSources) badConfig
  checkInlinePermissions env path value
  let config ← config.validateAndResolve lib env path
  let stateDirs ← addStateDir env [] config.login
  let progress ← config.regions.entries.foldlM (addRegion lib env path)
    ⟨{ config with regions := {} }, [trimSlashes config.session.origin], stateDirs⟩
  return progress.config

end Config

end MoenotesApi
