import MoenotesApi.Server.Config

/-!
# The backends of one configuration

`Config::from_text` rejects a region whose origin or whose state directory is already in use.  The
regions and the state directories of an accepted configuration are indeed different, but the origins
are compared as texts without their trailing slashes, and two texts can name one origin.

* `Config.backends`, `Apart`, `Config.Distinct`: the configurations of the backends are different;
* `addRegion_eq_ok`, `Consistent`: what one round of the loop does and keeps;
* `distinct_iff`: an accepted configuration has different backends if and only if no origin is
  written in two ways.
-/

namespace MoenotesApi

namespace Config

variable {lib : Libraries} {toml : Toml} {env : Environment} {text path : String}

/-- The configurations of all backends, the default one first. -/
def backends (config : Config) : List RegionConfig :=
  config.regionConfig :: config.regions.entries.map Prod.snd

/-- Two backends have different origins, canonical regions and state directories. -/
structure Apart (lib : Libraries) (env : Environment) (a b : RegionConfig) : Prop where
  origin : MoenotesApi.origin lib a.session.origin ≠ MoenotesApi.origin lib b.session.origin
  region : Region.fromSession a.session.region ≠ Region.fromSession b.session.region
  stateDir : ∀ la ∈ a.login, ∀ lb ∈ b.login,
    stateIdentity env la.stateDir ≠ stateIdentity env lb.stateDir

/-- Every two backends are apart. -/
def Distinct (lib : Libraries) (env : Environment) (config : Config) : Prop :=
  config.backends.Pairwise (Apart lib env)

/-- The origins as they are written. -/
def writtenOrigins (config : Config) : List String := config.backends.map (·.session.origin)

/-- No origin is written in two ways, up to trailing slashes. -/
def OneSpelling (lib : Libraries) (config : Config) : Prop :=
  config.writtenOrigins.Pairwise fun a b =>
    MoenotesApi.origin lib a = MoenotesApi.origin lib b → trimSlashes a = trimSlashes b

/-- Where the login of a backend keeps its state. -/
def identity (env : Environment) (settings : RegionConfig) :
    Option (Except ClientError (List Path.Component)) :=
  settings.login.map fun login => stateIdentity env login.stateDir

/-! ### One round of the loop -/

theorem validateAndResolve_eq_ok {config config' : Config}
    (h : config.validateAndResolve lib env path = .ok config') :
    config'.session = config.session ∧ config'.regions = config.regions := by
  simp only [validateAndResolve, Except.bind_eq_ok, Except.pure_eq_ok] at h
  obtain ⟨-, -, -, -, -, -, -, -, -, -, rfl⟩ := h
  exact ⟨rfl, rfl⟩

/-- A login adds the identity of its state directory, which is new; no login adds nothing. -/
theorem addStateDir_eq_ok {settings : RegionConfig} {dirs dirs' : List (List Path.Component)}
    (h : addStateDir env dirs settings.login = .ok dirs') (hnodup : dirs.Nodup) :
    dirs'.Nodup ∧
      dirs'.map Except.ok = dirs.map Except.ok ++ (identity env settings).toList := by
  unfold identity
  cases hl : settings.login with
  | none =>
    rw [hl] at h
    cases h
    exact ⟨hnodup, by simp⟩
  | some login =>
    simp only [hl, addStateDir, Except.bind_eq_ok, Except.pure_eq_ok, Except.refuse_eq_ok] at h
    obtain ⟨dir, hdir, -, hnew, rfl⟩ := h
    refine ⟨?_, by simp [hdir]⟩
    rw [← List.concat_eq_append]
    exact hnodup.concat hnew

/-- What a round of the loop checks, and what it adds to each of its variables. -/
theorem addRegion_eq_ok {progress progress' : Progress} {entry : Region × RegionConfig}
    (h : addRegion lib env path progress entry = .ok progress') :
    ∃ regional : RegionConfig, regional.session = entry.2.session ∧
      Region.fromSession progress.config.session.region ≠ some entry.1 ∧
      Region.fromSession regional.session.region = some entry.1 ∧
      trimSlashes regional.session.origin ∉ progress.origins ∧
      addStateDir env progress.stateDirs regional.login = .ok progress'.stateDirs ∧
      progress'.origins = progress.origins ++ [trimSlashes regional.session.origin] ∧
      progress'.config = { progress.config with
        regions := progress.config.regions.insert entry.1 regional } := by
  simp only [addRegion, Except.bind_eq_ok, Except.pure_eq_ok, Except.refuse_eq_ok, not_or,
    not_not] at h
  obtain ⟨-, ⟨hdefault, hregion⟩, regional, hvalid, -, hnew, stateDirs, hdirs, rfl⟩ := h
  have hsession : regional.session = entry.2.session := (validateAndResolve_eq_ok hvalid).1
  exact ⟨regional.regionConfig, hsession, hdefault, by rw [← hregion, ← hsession]; rfl, hnew, hdirs,
    rfl, rfl⟩

/-! ### The whole loop -/

/-- What holds after the rounds for the entries `done`, if the default session is `session`. -/
structure Consistent (env : Environment) (session : SessionConfig)
    (done : List (Region × RegionConfig)) (progress : Progress) : Prop where
  session_eq : progress.config.session = session
  keys : SortedMap.keys progress.config.regions.entries = SortedMap.keys done
  written : progress.config.writtenOrigins = session.origin :: done.map (·.2.session.origin)
  origins : progress.origins = progress.config.writtenOrigins.map trimSlashes
  origins_nodup : progress.origins.Nodup
  regions : ∀ e ∈ progress.config.regions.entries,
    Region.fromSession session.region ≠ some e.1 ∧
      Region.fromSession e.2.session.region = some e.1
  stateDirs : progress.stateDirs.map Except.ok =
    progress.config.backends.filterMap (identity env)
  stateDirs_nodup : progress.stateDirs.Nodup

theorem backends_nil (config : Config) :
    backends { config with regions := {} } = [config.regionConfig] := rfl

/-- A region above all others becomes the last backend. -/
theorem backends_insert {config : Config} {region : Region} {settings : RegionConfig}
    (h : ∀ k ∈ SortedMap.keys config.regions.entries, k < region) :
    backends { config with regions := config.regions.insert region settings } =
      config.backends ++ [settings] := by
  have hentries : (config.regions.insert region settings).entries =
      config.regions.entries ++ [(region, settings)] := SortedMap.insert_of_lt h
  simp only [backends, hentries, List.map_append, List.map_cons, List.map_nil, List.cons_append]
  rfl

/-- One round keeps the invariant, as the regions come in their order. -/
theorem Consistent.step {session : SessionConfig} {done : List (Region × RegionConfig)}
    {entry : Region × RegionConfig} {progress progress' : Progress}
    (hsorted : SortedMap.Sorted (done ++ [entry])) (hinv : Consistent env session done progress)
    (h : addRegion lib env path progress entry = .ok progress') :
    Consistent env session (done ++ [entry]) progress' := by
  obtain ⟨regional, hsession, hdefault, hregion, hnew, hdirs, horigins, hconfig⟩ :=
    addRegion_eq_ok h
  have hlast : ∀ k ∈ SortedMap.keys progress.config.regions.entries, k < entry.1 := by
    intro k hk
    rw [hinv.keys] at hk
    obtain ⟨e, he, rfl⟩ := List.mem_map.1 hk
    exact (List.pairwise_append.1 hsorted).2.2 e he entry (List.mem_singleton.2 rfl)
  have hbackends : progress'.config.backends = progress.config.backends ++ [regional] := by
    rw [hconfig, backends_insert hlast]
  have hentries : progress'.config.regions.entries =
      progress.config.regions.entries ++ [(entry.1, regional)] := by
    rw [hconfig]
    exact SortedMap.insert_of_lt hlast
  have hwritten : progress'.config.writtenOrigins =
      progress.config.writtenOrigins ++ [regional.session.origin] := by
    simp only [writtenOrigins, hbackends, List.map_append, List.map_cons, List.map_nil]
  obtain ⟨hdirsNodup, hdirsEq⟩ := addStateDir_eq_ok hdirs hinv.stateDirs_nodup
  constructor
  · rw [hconfig, ← hinv.session_eq]
  · rw [hentries]
    simp only [SortedMap.keys, List.map_append, List.map_cons, List.map_nil]
    exact congrArg (· ++ [entry.1]) hinv.keys
  · rw [hwritten, hinv.written, hsession]
    simp
  · rw [horigins, hwritten, hinv.origins]
    simp
  · rw [horigins, ← List.concat_eq_append]
    exact hinv.origins_nodup.concat hnew
  · intro e he
    rw [hentries] at he
    rcases List.mem_append.1 he with he | he
    · exact hinv.regions e he
    · rw [List.mem_singleton.1 he, ← hinv.session_eq]
      exact ⟨hdefault, hregion⟩
  · rw [hdirsEq, hbackends, List.filterMap_append, hinv.stateDirs]
    cases hid : identity env regional <;> simp [hid]
  · exact hdirsNodup

/-- Before the first round there is only the default backend. -/
theorem Consistent.start {config : Config} {stateDirs : List (List Path.Component)}
    (h : addStateDir env [] config.login = .ok stateDirs) :
    Consistent env config.session []
      ⟨{ config with regions := {} }, [trimSlashes config.session.origin], stateDirs⟩ := by
  have hdefault : addStateDir env [] config.regionConfig.login = .ok stateDirs := h
  obtain ⟨hnodup, hdirs⟩ := addStateDir_eq_ok hdefault List.nodup_nil
  constructor
  · rfl
  · rfl
  · rfl
  · rfl
  · exact List.nodup_singleton _
  · intro e he
    exact absurd he List.not_mem_nil
  · rw [hdirs, backends_nil]
    cases hid : identity env config.regionConfig <;> simp [hid]
  · exact hnodup

/-! ### Accepted configurations -/

/-- The loop over the regions leaves its variables consistent. -/
theorem fromText_eq_ok {config : Config} (h : fromText lib toml env text path = .ok config) :
    ∃ doc progress, toml.config text = some doc ∧ progress.config = config ∧
      Consistent env doc.session doc.regions.entries progress := by
  simp only [fromText, Except.bind_eq_ok, Except.pure_eq_ok] at h
  obtain ⟨doc, hdoc, -, -, -, -, -, -, -, -, resolved, hvalid, stateDirs, hdirs, progress, hloop,
    hconfig⟩ := h
  obtain ⟨hsession, hregions⟩ := validateAndResolve_eq_ok hvalid
  have hparse : toml.config text = some doc := by
    cases hp : toml.config text with
    | none =>
      rw [hp] at hdoc
      cases hdoc
    | some d =>
      rw [hp] at hdoc
      cases hdoc
      rfl
  refine ⟨doc, progress, hparse, hconfig, ?_⟩
  rw [hregions] at hloop
  refine Except.foldlM_induction (hsession ▸ Consistent.start hdirs) ?_ hloop
  intro done entry b b' hprefix hinv hround
  exact hinv.step (doc.regions.sorted.sublist hprefix.sublist) hround

namespace Consistent

variable {session : SessionConfig} {done : List (Region × RegionConfig)} {progress : Progress}

/-- The origins are different as texts. -/
theorem pairwise_origins (h : Consistent env session done progress) :
    progress.config.backends.Pairwise fun a b =>
      trimSlashes a.session.origin ≠ trimSlashes b.session.origin := by
  have hnodup := h.origins_nodup
  rw [h.origins, writtenOrigins, List.map_map] at hnodup
  exact List.pairwise_map.1 hnodup

/-- The canonical regions are different: each is the key of its entry, and none is the default. -/
theorem pairwise_regions (h : Consistent env session done progress) :
    progress.config.backends.Pairwise fun a b =>
      Region.fromSession a.session.region ≠ Region.fromSession b.session.region := by
  refine List.pairwise_cons.2 ⟨fun b hb => ?_, ?_⟩
  · obtain ⟨e, he, rfl⟩ := List.mem_map.1 hb
    obtain ⟨hdefault, hregion⟩ := h.regions e he
    rw [hregion]
    change Region.fromSession progress.config.session.region ≠ _
    rwa [h.session_eq]
  · refine List.pairwise_map.2 (progress.config.regions.sorted.imp_of_mem fun {a b} ha hb hlt => ?_)
    rw [(h.regions a ha).2, (h.regions b hb).2, ne_eq, Option.some.injEq]
    exact hlt.ne

/-- The state directories are different. -/
theorem pairwise_stateDirs (h : Consistent env session done progress) :
    progress.config.backends.Pairwise fun a b => ∀ la ∈ a.login, ∀ lb ∈ b.login,
      stateIdentity env la.stateDir ≠ stateIdentity env lb.stateDir := by
  have hinj : Function.Injective (Except.ok : _ → Except ClientError (List Path.Component)) :=
    fun _ _ he => Except.ok.inj he
  have hnodup := h.stateDirs_nodup.map hinj
  rw [h.stateDirs] at hnodup
  refine (List.pairwise_filterMap.1 hnodup).imp fun {a b} hab la hla lb hlb => ?_
  exact hab _ (by rw [identity, hla]; rfl) _ (by rw [identity, hlb]; rfl)

end Consistent

/-- **The backends of an accepted configuration are different if and only if no origin is written in
two ways.**  The texts of the origins, the canonical regions and the state directories always
differ. -/
theorem distinct_iff {doc config : Config} (hdoc : toml.config text = some doc)
    (h : fromText lib toml env text path = .ok config) :
    config.Distinct lib env ↔ doc.OneSpelling lib := by
  obtain ⟨doc', progress, hdoc', rfl, hinv⟩ := fromText_eq_ok h
  obtain rfl : doc' = doc := Option.some.inj (hdoc'.symm.trans hdoc)
  have hwritten : progress.config.writtenOrigins = doc'.writtenOrigins := by
    rw [hinv.written, writtenOrigins, backends, List.map_cons, List.map_map]
    rfl
  unfold OneSpelling
  rw [← hwritten, writtenOrigins, List.pairwise_map]
  constructor
  · intro hdistinct
    exact hdistinct.imp fun hab hsame => absurd hsame hab.origin
  · intro hspelling
    refine (hinv.pairwise_origins.and (hinv.pairwise_regions.and
      (hinv.pairwise_stateDirs.and hspelling))).imp ?_
    rintro a b ⟨htext, hregion, hdirs, hsame⟩
    exact ⟨fun heq => htext (hsame heq), hregion, hdirs⟩

/-! ### Sample files -/

/-- A URL parser that knows one origin with and without the default port, and another one. -/
def portLibraries : Libraries where
  parseUrl := fun value =>
    if value = "https://game.example" ∨ value = "https://game.example:443" then
      some ⟨"https", some "game.example", "", none, none, none, "/", "https://game.example"⟩
    else if value = "https://kr.example" then
      some ⟨"https", some "kr.example", "", none, none, none, "/", "https://kr.example"⟩
    else none
  headerValue := sampleLibraries.headerValue
  endpoint := fun _ => true
  parseAssets := fun _ => none

/-- No path exists yet, and the configuration file is private. -/
def emptyEnvironment : Environment where
  currentDir := some "/"
  canonicalize := fun _ => .missing
  privateFile := fun _ => true

def sampleSession (region origin : String) : SessionConfig where
  region := region
  origin := origin
  allowedOrigins := [origin]
  platform := "android"
  clientVersion := "1.0.0"
  masterVersion := none
  resourceVersion := none

/-- A default session and a session for Korea. -/
def twoSessions (origin : String) : Config where
  apiKeyFile := "/run/api-key"
  session := sampleSession "en" "https://game.example"
  regions := ⟨[(.kr, { session := sampleSession "kr" origin })], List.pairwise_singleton _ _⟩

/-- The text of `twoSessions`. -/
def twoSessionsText (origin : String) : String :=
  "api_key_file = \"/run/api-key\"\n[session]\nregion = \"en\"\n" ++
  "origin = \"https://game.example\"\nallowed_origins = [\"https://game.example\"]\n" ++
  "platform = \"android\"\nclient_version = \"1.0.0\"\n[regions.kr.session]\nregion = \"kr\"\n" ++
  "origin = \"" ++ origin ++ "\"\nallowed_origins = [\"" ++ origin ++ "\"]\n" ++
  "platform = \"android\"\nclient_version = \"1.0.0\"\n"

def sessionTable (region origin : String) : TomlValue :=
  .table [("region", .string region), ("origin", .string origin), ("allowed_origins", .other),
    ("platform", .string "android"), ("client_version", .string "1.0.0")]

/-- A parser for `twoSessionsText`. -/
def twoSessionsToml (origin : String) : Toml where
  config := fun _ => some (twoSessions origin)
  value := fun _ => some (.table [("api_key_file", .string "/run/api-key"),
    ("session", sessionTable "en" "https://game.example"),
    ("regions", .table [("kr", .table [("session", sessionTable "kr" origin)])])])

theorem fromText_twoSessions_port :
    fromText portLibraries (twoSessionsToml "https://game.example:443") emptyEnvironment
      (twoSessionsText "https://game.example:443") "/etc/moenotes/config.toml" =
    .ok (twoSessions "https://game.example:443") := by rfl

theorem port_accepted : ∃ config,
    fromText portLibraries (twoSessionsToml "https://game.example:443") emptyEnvironment
      (twoSessionsText "https://game.example:443") "/etc/moenotes/config.toml" = .ok config ∧
    ¬ config.Distinct portLibraries emptyEnvironment := by
  refine ⟨_, fromText_twoSessions_port, fun h => ?_⟩
  exact (List.pairwise_cons.1 h).1 _ (List.mem_singleton.2 rfl) |>.origin rfl

theorem distinct_iff_twoSessions :
    Distinct portLibraries emptyEnvironment (twoSessions "https://kr.example") ↔
      OneSpelling portLibraries (twoSessions "https://kr.example") := by
  have hdoc : (twoSessionsToml "https://kr.example").config (twoSessionsText "https://kr.example") =
      some (twoSessions "https://kr.example") := rfl
  have hload : fromText portLibraries (twoSessionsToml "https://kr.example") emptyEnvironment
      (twoSessionsText "https://kr.example") "/etc/moenotes/config.toml" =
      .ok (twoSessions "https://kr.example") := by rfl
  exact distinct_iff hdoc hload

end Config

end MoenotesApi
