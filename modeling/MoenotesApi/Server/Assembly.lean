import MoenotesApi.Cache.Store
import MoenotesApi.Pool.Machine
import MoenotesApi.Server.Backends
import MoenotesApi.Server.Regions

/-!
# From the configuration to the pools

`serve` of `main.rs` makes one runtime for each session of the configuration, or one for each account
file where the accounts take turns (`runtime.rs`), and a pool for each region.  A runtime is known by
its configuration; what `Runtime::new` loads after it has looked at the strategy is a parameter.

* `Runtime.forAccounts`, `makePool`, `assemble`: the runtimes, the pools and the regions;
* `Listed`, `fileList_eq_ok`: the account files of a directory;
* `Members`, `assembly_exact`: who serves which region.
-/

namespace MoenotesApi

open Config (fromText)

/-- What the process finds when it starts: the account directories, and whether `Runtime::new` can load
what a configuration names. -/
structure Host where
  files : String → AccountFiles
  load : Config → Except ClientError Unit

namespace Runtime

/-- `Runtime::new`. -/
def new (host : Host) (config : Config) : Except ClientError Config := do
  .refuse (config.accounts.any fun accounts => accounts.strategy ≠ .single) badConfig
  host.load config
  return config

theorem sorted_regions : SortedMap.Sorted ([] : List (Region × RegionConfig)) := .nil

/-- The configuration of the runtime for one account file. -/
def member (config : Config) (accounts : AccountsConfig) (name : String) : Config :=
  { config with
    regions := ⟨[], sorted_regions⟩
    accounts := some { accounts with strategy := .single, selected := some name } }

/-- `Runtime::for_accounts`. -/
def forAccounts (host : Host) (config : Config) : Except ClientError (List Config) :=
  match config.accounts.filter fun accounts => accounts.strategy = .roundRobin with
  | none => do return [← new host config]
  | some accounts => do
    let names ← (fileList accounts (host.files accounts.directory)).mapError .new
    .refuse (maxSessions < names.length) badConfig
    names.mapM fun name => new host (member config accounts name)

end Runtime

/-- `cache_options` of `main`. -/
def Config.cacheOptions (config : Config) : CacheOptions where
  ttl := config.cacheTtlSeconds * 10 ^ 9
  capacity := config.cacheCapacity
  maxBytes := 64 * 1024 * 1024
  maxInflight := 32

/-- `make_pool`: what `SessionPool::new` accepts. -/
def makePool (opt : CacheOptions) (members : List Config) : Except ClientError (List Config) := do
  opt.validate
  .refuse (maxSessions < members.length) badConfig
  return members

/-- The runtimes for one session, and their pool. -/
def poolFor (host : Host) (opt : CacheOptions) (config : Config) : Except ClientError (List Config) := do
  makePool opt (← Runtime.forAccounts host config)

/-- The pools of a server, the pool of the default session first, and the pool of each region. -/
structure Assembly where
  pools : List (List Config)
  clients : RegionClients

/-- What `serve` does with its configuration.  Without a default region the router makes a pool of the
first runtime; it stands for the first pool, which no region has then. -/
def assemble (host : Host) (config : Config) : Except ClientError Assembly := do
  let first ← poolFor host config.cacheOptions config
  let others ← config.regions.entries.mapM fun entry =>
    poolFor host config.cacheOptions (config.forRegion entry.2)
  let defaultRegion := Region.fromSession config.session.region
  let clients ← RegionClients.withPools defaultRegion
    (defaultRegion.toList.map (fun region => (region, 0)) ++
      (SortedMap.keys config.regions.entries).zipIdx 1)
  return ⟨first :: others, clients⟩

/-- The configurations that the pools are made for. -/
def Config.runtimes (config : Config) : List Config :=
  config :: config.regions.entries.map fun entry => config.forRegion entry.2

/-! ### Account files -/

/-- The valid names of a directory, each as often as the directory lists it. -/
def Listed (files : AccountFiles) (names : List String) : Prop :=
  files.directory = .missing ∧ names = [] ∨
    ∃ entries, files.readDir = some entries ∧
      ∀ name, names.count name = if validName name then entries.count (some (some name)) else 0

theorem collectFiles_eq_ok {n : ℕ} {entries : List (Option (Option String))} {names : List String}
    (h : collectFiles n entries = .ok names) (name : String) :
    names.count name = if validName name then entries.count (some (some name)) else 0 := by
  induction entries generalizing n names with
  | nil =>
    simp only [collectFiles, Except.ok.injEq] at h
    subst h
    simp
  | cons entry entries ih =>
    cases n with
    | zero => cases h
    | succ n =>
      rcases entry with _ | _ | found
      · cases h
      · cases h
      · simp only [collectFiles, Except.bind_eq_ok, Except.pure_eq_ok] at h
        obtain ⟨rest, hrest, rfl⟩ := h
        have ih := ih hrest
        by_cases hname : found = name
        · subst hname
          cases hvalid : validName found <;> simp [hvalid] at ih ⊢ <;> omega
        · have hentries : (some (some found) :: entries).count (some (some name)) =
              entries.count (some (some name)) := List.count_cons_of_ne (by simpa using hname)
          rw [hentries, ← ih]
          split
          · exact List.count_cons_of_ne (by simpa using hname)
          · rfl

/-- The files of a directory, in the order of their names. -/
theorem fileList_eq_ok {accounts : AccountsConfig} {files : AccountFiles} {names : List String}
    (h : fileList accounts files = .ok names) (hselected : accounts.selected = none) :
    Listed files names ∧ names.Pairwise fun a b => a.toList ≤ b.toList := by
  unfold fileList at h
  split at h
  · cases h
  split at h
  · next hmissing =>
    cases h
    exact ⟨.inl ⟨hmissing, rfl⟩, .nil⟩
  · cases h
  · split at h
    · cases h
    rw [hselected] at h
    dsimp only at h
    split at h
    · cases h
    · next entries hentries =>
      obtain ⟨found, hfound, rfl⟩ := Except.map_eq_ok.1 h
      refine ⟨.inr ⟨entries, hentries, fun name => ?_⟩, ?_⟩
      · rw [(List.perm_insertionSort _ found).count_eq, collectFiles_eq_ok hfound]
      · exact List.pairwise_insertionSort _ found

/-- A runtime looks at no account file but its own. -/
theorem fileList_selected {accounts : AccountsConfig} {files : AccountFiles} {names : List String}
    {name : String} (h : fileList accounts files = .ok names) (hselected : accounts.selected = some name) :
    names = [] ∨ names = [name] := by
  unfold fileList at h
  split at h
  · cases h
  split at h
  · cases h
    exact .inl rfl
  · cases h
  · split at h
    · cases h
    rw [hselected] at h
    dsimp only at h
    split at h
    · cases h
      exact .inr rfl
    · cases h
      exact .inl rfl
    · cases h

/-! ### The runtimes of a pool -/

/-- What a pool for `config` consists of. -/
structure Members (host : Host) (config : Config) (members : List Config) : Prop where
  length_le : members.length ≤ maxSessions
  session : ∀ m ∈ members, m.session = config.session
  alone : (∀ accounts ∈ config.accounts, accounts.strategy = .single) → members = [config]
  robin : ∀ accounts ∈ config.accounts, accounts.strategy = .roundRobin →
    ∃ names, members = names.map (Runtime.member config accounts) ∧
      Listed (host.files accounts.directory) names ∧
      (names.Pairwise fun a b => a.toList ≤ b.toList) ∧
      ∀ name ∈ names, ∀ own ∈ (Runtime.member config accounts name).accounts,
        ∀ files found, fileList own files = .ok found → found = [] ∨ found = [name]

namespace Runtime

variable {host : Host} {config : Config} {members : List Config}

theorem new_eq_ok {m : Config} (h : new host config = .ok m) : m = config := by
  simp only [new, Except.bind_eq_ok, Except.pure_eq_ok] at h
  obtain ⟨-, -, -, -, rfl⟩ := h
  rfl

/-- The runtimes for a list of configurations are these. -/
theorem mapM_new {names : List String} {f : String → Config}
    (h : (names.mapM fun name => new host (f name)) = .ok members) : members = names.map f := by
  have hall := Except.mapM_eq_ok.1 h
  clear h
  induction hall with
  | nil => rfl
  | cons hnew _ ih => rw [new_eq_ok hnew, ih, List.map_cons]

theorem members_of_forAccounts (h : forAccounts host config = .ok members) :
    Members host config members := by
  unfold forAccounts at h
  split at h
  · next hnone =>
    simp only [Except.bind_eq_ok, Except.pure_eq_ok] at h
    obtain ⟨m, hm, rfl⟩ := h
    obtain rfl := new_eq_ok hm
    refine ⟨by simp [maxSessions], by simp, fun _ => rfl, fun accounts haccounts hrobin => ?_⟩
    rw [Option.mem_def] at haccounts
    simp [haccounts, Option.filter, hrobin] at hnone
  · next accounts hsome =>
    obtain ⟨haccounts, hrobin⟩ := Option.filter_eq_some_iff.1 hsome
    have hrobin : accounts.strategy = .roundRobin := by simpa using hrobin
    simp only [Except.bind_eq_ok, Except.refuse_eq_ok, not_lt] at h
    obtain ⟨names, hnames, -, hlength, hmembers⟩ := h
    have hlist : fileList accounts (host.files accounts.directory) = .ok names := by
      cases hfiles : fileList accounts (host.files accounts.directory) with
      | error kind =>
        rw [hfiles] at hnames
        cases hnames
      | ok found =>
        rw [hfiles] at hnames
        cases hnames
        rfl
    have hselected : accounts.selected = none := by
      unfold fileList at hlist
      split at hlist
      · cases hlist
      · next hvalid =>
        cases hselected : accounts.selected with
        | none => rfl
        | some name => simp [AccountsConfig.valid, hrobin, hselected] at hvalid
    obtain rfl := mapM_new hmembers
    obtain ⟨hlisted, hsorted⟩ := fileList_eq_ok hlist hselected
    refine ⟨by simpa using hlength, ?_, fun hsingle => ?_, fun accounts' haccounts' _ => ?_⟩
    · intro m hm
      obtain ⟨name, -, rfl⟩ := List.mem_map.1 hm
      rfl
    · rw [hsingle accounts haccounts] at hrobin
      cases hrobin
    · obtain rfl : accounts = accounts' := Option.some.inj (haccounts.symm.trans haccounts')
      refine ⟨names, rfl, hlisted, hsorted, fun name _ own hown files found hfound => ?_⟩
      obtain rfl := Option.some.inj hown
      exact fileList_selected hfound rfl

end Runtime

theorem makePool_eq_ok {opt : CacheOptions} {members pool : List Config}
    (h : makePool opt members = .ok pool) : pool = members := by
  simp only [makePool, Except.bind_eq_ok, Except.pure_eq_ok] at h
  obtain ⟨-, -, -, -, rfl⟩ := h
  rfl

theorem members_of_poolFor {host : Host} {config : Config} {opt : CacheOptions} {pool : List Config}
    (h : poolFor host opt config = .ok pool) : Members host config pool := by
  obtain ⟨members, hmembers, hpool⟩ := Except.bind_eq_ok.1 h
  rw [makePool_eq_ok hpool]
  exact Runtime.members_of_forAccounts hmembers

/-- A pool cannot be made only where its runtimes cannot. -/
theorem errors_poolFor {host : Host} {config : Config} {opt : CacheOptions}
    (hopt : opt.validate = .ok ()) :
    Except.Errors (fun error => Runtime.forAccounts host config = .error error)
      (poolFor host opt config) := by
  unfold poolFor
  cases hmembers : Runtime.forAccounts host config with
  | error e => exact Except.errors_error.2 rfl
  | ok members =>
    have hlength := (Runtime.members_of_forAccounts hmembers).length_le
    intro error herror
    simp [makePool, hopt, Except.refuse, Nat.not_lt.2 hlength, bind, Except.bind, pure,
      Except.pure] at herror

/-! ### The regions -/

namespace RegionClients

theorem exists_foldlM_addPool {pools : List (Region × ℕ)} {backends : Region → Option ℕ}
    (hnodup : (pools.map Prod.fst).Nodup) (hnone : ∀ region ∈ pools.map Prod.fst, backends region = none) :
    ∃ backends', pools.foldlM addPool backends = .ok backends' := by
  induction pools generalizing backends with
  | nil => exact ⟨backends, rfl⟩
  | cons entry pools ih =>
    obtain ⟨hnew, hnodup⟩ := List.nodup_cons.1 hnodup
    have hentry : addPool backends entry = .ok (Function.update backends entry.1 (some entry.2)) := by
      simp [addPool, Except.refuse, hnone entry.1 (by simp), bind, Except.bind, pure, Except.pure]
    obtain ⟨backends', h⟩ : ∃ backends',
        pools.foldlM addPool (Function.update backends entry.1 (some entry.2)) = .ok backends' := by
      refine ih hnodup fun region hregion => ?_
      have hne : region ≠ entry.1 := fun heq => hnew (heq ▸ hregion)
      rw [Function.update_of_ne hne]
      exact hnone region (List.mem_cons_of_mem _ hregion)
    exact ⟨backends', by rw [List.foldlM_cons, hentry]; exact h⟩

/-- The pool of a region, where each region has one. -/
theorem find_eq_some {pools : List (Region × ℕ)} (hnodup : (pools.map Prod.fst).Nodup)
    {region : Region} {k : ℕ} :
    (pools.find? fun entry => entry.1 = region).map Prod.snd = some k ↔ (region, k) ∈ pools := by
  constructor
  · intro h
    obtain ⟨entry, hentry, rfl⟩ := Option.map_eq_some_iff.1 h
    have hregion : entry.1 = region := by simpa using List.find?_some hentry
    rw [← hregion]
    exact List.mem_of_find?_eq_some hentry
  · intro h
    cases hfind : pools.find? fun entry => entry.1 = region with
    | none => simpa using List.find?_eq_none.1 hfind _ h
    | some entry =>
      have hregion : entry.1 = region := by simpa using List.find?_some hfind
      have hentry : entry = (region, k) :=
        List.inj_on_of_nodup_map hnodup (List.mem_of_find?_eq_some hfind) h hregion
      rw [hentry]
      rfl

/-- Each region once, and among them the default region: nothing else is asked for. -/
theorem exists_withPools {defaultRegion : Option Region} {pools : List (Region × ℕ)}
    (hnodup : (pools.map Prod.fst).Nodup)
    (hdefault : ∀ region ∈ defaultRegion, region ∈ pools.map Prod.fst) :
    ∃ clients, withPools defaultRegion pools = .ok clients := by
  obtain ⟨backends, hbackends⟩ := exists_foldlM_addPool hnodup fun _ _ => rfl
  refine ⟨⟨backends, defaultRegion⟩, ?_⟩
  have hfound : ¬ (defaultRegion.any fun region => (backends region).isNone) = true := by
    rw [Option.any_eq_true]
    rintro ⟨region, hregion, hmissing⟩
    obtain ⟨entry, hentry, rfl⟩ := List.mem_map.1 (hdefault region hregion)
    have hpool := (find_eq_some hnodup).2 (show (entry.1, entry.2) ∈ pools from hentry)
    rw [(foldlM_addPool hbackends).2.2, hpool] at hmissing
    cases hmissing
  simp [withPools, hbackends, Except.refuse, hfound, bind, Except.bind, pure, Except.pure]

end RegionClients

/-! ### Accepted configurations -/

namespace Config

variable {lib : Libraries} {toml : Toml} {env : Environment} {text path : String} {config : Config}

/-- The loop over the regions changes nothing but the regions. -/
theorem fromText_resolved (h : fromText lib toml env text path = .ok config) :
    ∃ doc resolved, validateAndResolve lib env path doc = .ok resolved ∧
      config = { resolved with regions := config.regions } := by
  simp only [fromText, Except.bind_eq_ok, Except.pure_eq_ok] at h
  obtain ⟨doc, -, -, -, -, -, -, -, -, -, resolved, hvalid, stateDirs, -, progress, hloop, rfl⟩ := h
  refine ⟨doc, resolved, hvalid, ?_⟩
  refine Except.foldlM_induction
    (P := fun _ progress => progress.config = { resolved with regions := progress.config.regions })
    rfl ?_ hloop
  intro done entry progress progress' _ ih hround
  obtain ⟨regional, -, -, -, -, -, -, hconfig⟩ := addRegion_eq_ok hround
  rw [hconfig, ih]

/-- The bounds of a configuration are within those of the cache. -/
theorem validate_cacheOptions (h : fromText lib toml env text path = .ok config) :
    config.cacheOptions.validate = .ok () := by
  obtain ⟨doc, resolved, hvalid, hconfig⟩ := fromText_resolved h
  simp only [validateAndResolve, Except.bind_eq_ok, Except.refuse_eq_ok, Except.pure_eq_ok] at hvalid
  obtain ⟨-, hbounds, -, -, _, -, _, -, _, -, rfl⟩ := hvalid
  rw [hconfig]
  simp only [rejected, not_or, not_lt] at hbounds
  obtain ⟨hcapacity, httl, -⟩ := hbounds
  refine Except.refuse_eq_ok.2 ?_
  rw [not_or, not_lt, not_lt]
  exact ⟨Nat.mul_le_mul_right _ httl, hcapacity⟩

/-- The regions of an accepted configuration: each once, none the default, each that of its session. -/
theorem regions_of_fromText (h : fromText lib toml env text path = .ok config) :
    ∀ entry ∈ config.regions.entries,
      Region.fromSession config.session.region ≠ some entry.1 ∧
        Region.fromSession entry.2.session.region = some entry.1 := by
  obtain ⟨doc, progress, -, rfl, hinv⟩ := fromText_eq_ok h
  rw [hinv.session_eq]
  exact hinv.regions

/-- The regions with the numbers of their pools, as `main` collects them. -/
def numbered (config : Config) : List (Region × ℕ) :=
  (Region.fromSession config.session.region).toList.map (fun region => (region, 0)) ++
    (SortedMap.keys config.regions.entries).zipIdx 1

theorem numbered_regions (config : Config) : config.numbered.map Prod.fst =
    (Region.fromSession config.session.region).toList ++ SortedMap.keys config.regions.entries := by
  simp [numbered, Function.comp_def]

theorem nodup_numbered (h : fromText lib toml env text path = .ok config) :
    (config.numbered.map Prod.fst).Nodup := by
  rw [numbered_regions]
  refine List.Nodup.append ?_ config.regions.sorted.nodup_keys ?_
  · cases Region.fromSession config.session.region <;> simp
  · intro region hdefault hkey
    obtain ⟨entry, hentry, rfl⟩ := List.mem_map.1 hkey
    exact (regions_of_fromText h entry hentry).1 (by simpa using hdefault)

/-- The pool `k` is numbered for the region of the configuration that it is made for. -/
theorem mem_numbered (h : fromText lib toml env text path = .ok config) {region : Region} {k : ℕ} :
    (region, k) ∈ config.numbered ↔ ∃ c, config.runtimes[k]? = some c ∧
      Region.fromSession c.session.region = some region := by
  unfold numbered runtimes
  rw [List.mem_append]
  cases k with
  | zero =>
    have hlater : (region, 0) ∉ (SortedMap.keys config.regions.entries).zipIdx 1 := by
      intro hmem
      have hle := List.le_snd_of_mem_zipIdx hmem
      omega
    simp [hlater]
  | succ k =>
    have hdefault : (region, k + 1) ∉
        (Region.fromSession config.session.region).toList.map fun region => (region, 0) := by simp
    rw [or_iff_right hdefault, List.mk_mem_zipIdx_iff_le_and_getElem?_sub]
    simp only [Nat.le_add_left, true_and, Nat.add_sub_cancel, List.getElem?_cons_succ,
      List.getElem?_map, SortedMap.keys, Option.map_eq_some_iff]
    constructor
    · rintro ⟨entry, hentry, rfl⟩
      exact ⟨_, ⟨entry, hentry, rfl⟩, (regions_of_fromText h entry (List.mem_of_getElem? hentry)).2⟩
    · rintro ⟨c, ⟨entry, hentry, rfl⟩, hregion⟩
      refine ⟨entry, hentry, ?_⟩
      have hkey := (regions_of_fromText h entry (List.mem_of_getElem? hentry)).2
      exact Option.some.inj (hkey.symm.trans hregion)

end Config

section Assembly

variable {lib : Libraries} {toml : Toml} {env : Environment} {text path : String} {config : Config}

/-- **Each region has the pool of its own session.**  For an accepted configuration the server can be
assembled unless the runtimes of one of its sessions cannot be made.  Then requests for a region go to
the pool that was made for the session of that region, and to no other; a pool has at most 32 members,
all of them with this session.  Where accounts take turns there is exactly one member for each valid
account file of the directory, in the order of the names, and whatever the directory holds later a
member finds no other file than its own. -/
theorem assembly_exact (h : fromText lib toml env text path = .ok config) (host : Host) :
    Except.Errors (fun error => ∃ c ∈ config.runtimes, Runtime.forAccounts host c = .error error)
        (assemble host config) ∧
      ∀ assembly, assemble host config = .ok assembly →
        (∀ region k, assembly.clients.cache region = some k ↔ ∃ c, config.runtimes[k]? = some c ∧
          Region.fromSession c.session.region = some region) ∧
        List.Forall₂ (Members host) config.runtimes assembly.pools := by
  have hopt := Config.validate_cacheOptions h
  have hnodup := Config.nodup_numbered h
  have hdefault (region : Region) (hregion : region ∈ Region.fromSession config.session.region) :
      region ∈ config.numbered.map Prod.fst := by
    rw [Config.numbered_regions]
    exact List.mem_append_left _ (Option.mem_toList.2 hregion)
  obtain ⟨clients, hclients⟩ := RegionClients.exists_withPools hnodup hdefault
  have hcache := (RegionClients.withPools_eq_ok hclients).2.1
  constructor
  · unfold assemble
    refine .bind ?_ fun first => .bind ?_ fun others => ?_
    · intro error herror
      exact ⟨config, List.mem_cons_self, errors_poolFor hopt error herror⟩
    · refine .mapM fun entry hentry error herror => ?_
      refine ⟨config.forRegion entry.2, List.mem_cons_of_mem _ (List.mem_map_of_mem hentry), ?_⟩
      exact errors_poolFor hopt error herror
    · refine .bind ?_ fun _ => Except.errors_pure
      exact hclients ▸ Except.errors_ok
  · intro assembly hassembly
    simp only [assemble, Except.bind_eq_ok, Except.pure_eq_ok] at hassembly
    obtain ⟨first, hfirst, others, hothers, clients', hclients', rfl⟩ := hassembly
    obtain rfl : clients = clients' := Except.ok.inj (hclients.symm.trans hclients')
    refine ⟨fun region k => ?_, .cons (members_of_poolFor hfirst) ?_⟩
    · rw [hcache, RegionClients.find_eq_some hnodup, Config.mem_numbered h]
    · rw [List.forall₂_map_left_iff]
      exact (Except.mapM_eq_ok.1 hothers).imp fun entry pool hpool => members_of_poolFor hpool

end Assembly

/-! ### A sample server -/

section Sample

open Config (emptyEnvironment portLibraries sampleSession)

/-- A session, and a region with accounts that take turns. -/
def turnsConfig : Config where
  apiKeyFile := "/run/api-key"
  session := sampleSession "en" "https://game.example"
  regions := ⟨[(.jp, {
    session := sampleSession "jp" "https://kr.example"
    accounts := some ⟨"/accounts/jp", none, .roundRobin⟩ })], List.pairwise_singleton _ _⟩

def turnsToml : Toml where
  config := fun _ => some turnsConfig
  value := fun _ => some (.table [("api_key_file", .string "/run/api-key")])

/-- Two account files, and another one. -/
def turnsHost : Host where
  files := fun _ =>
    { directory := .found
      privateDir := true
      metadata := fun _ => .found
      readDir := some [some (some "b.json"), some (some "notes.txt"), some (some "a.json")]
      privateRead := fun _ => none }
  load := fun _ => .ok ()

theorem assembly_exact_turns : ∃ assembly, assemble turnsHost turnsConfig = .ok assembly ∧
    assembly.pools.map List.length = [1, 2] ∧ assembly.clients.cache .jp = some 1 ∧
    List.Forall₂ (Members turnsHost) turnsConfig.runtimes assembly.pools := by
  have hload : fromText portLibraries turnsToml emptyEnvironment "" "/etc/moenotes/config.toml" =
      .ok turnsConfig := rfl
  have hassemble : (assemble turnsHost turnsConfig).toOption.isSome = true := rfl
  cases hassembly : assemble turnsHost turnsConfig with
  | error e =>
    rw [hassembly] at hassemble
    cases hassemble
  | ok assembly =>
    obtain ⟨hregions, hmembers⟩ := (assembly_exact hload turnsHost).2 assembly hassembly
    refine ⟨assembly, rfl, ?_, (hregions .jp 1).2 ⟨_, rfl, rfl⟩, hmembers⟩
    have hlengths : (assemble turnsHost turnsConfig).toOption.map (·.pools.map List.length) =
        some [1, 2] := rfl
    rw [hassembly] at hlengths
    exact Option.some.inj hlengths

end Sample

end MoenotesApi
