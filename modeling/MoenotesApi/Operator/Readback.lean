import MoenotesApi.Operator.Snapshots

/-!
# Reading back what was saved

* `snapshots_consistent`: at any moment of any sequence of calls the pointer names two complete files
  of one call, no file of a call changes, and after a call that returned `Ok` the readers return what
  it saved;
* `persistEvents`, `exec_persist`: a call in which every system call succeeds;
* `saved_unreadable`: two calls that return `Ok` although a reader then fails.
-/

namespace MoenotesApi.OperatorState

open JsonText Files Runs

variable {ι : Type} {d₀ : StateDir} {s : OperatorState}
variable {ts : List (Transition OperatorState (Event ι))}

/-- **Crash consistency of the state directory.**  At every moment of every sequence of calls of
`persist`, each of which can fail or stop after any of its system calls: the pointer, if there is one,
names an SDK file and a game file that are complete and were written, like the pointer, by one call,
for the region and the origin in the pointer; a file that a call has put under its name stays as it
is; and after a call that returned `Ok`, as long as its pointer stays, `credentials` and
`approved_sdk` return what it saved, if the authorization was imported under the same configuration
and the pointer is no longer than `private_read` accepts. -/
theorem snapshots_consistent {serde : Serde} {lib : Libraries}
    (hurl : ∀ value target, origin lib value = .ok target → origin lib target = .ok target)
    (hempty : d₀.entries currentFile = none) (hrun : Run step (initial d₀) ts s)
    (hscoped : ∀ t ∈ ts, Scoped t) :
    (∀ entry, s.directory.entries currentFile = some entry →
      ∃ c saved, entry = .file true c.pointer.json ∧ Snapshot ts s.directory c saved) ∧
    (∀ c file, file ≠ .pointer → Wrote ts c file →
      s.directory.entries (c.job file).target = some (.file true (c.job file).content)) ∧
    ∀ as t bs c json, ts = as ++ t :: bs → Returned t c →
      (∀ u ∈ bs, u.after.directory.entries currentFile = u.before.directory.entries currentFile) →
      c.config.region ≠ "jp" →
      SdkAuthorization.fromCallbackJson serde lib c.config json = .ok c.sdk →
      byteLength c.pointer.json ≤ fileLimit →
      ∃ saved, Snapshot ts s.directory c saved ∧
        LoginConfig.credentials serde s.directory c.config = .ok (some saved) ∧
        LoginConfig.approvedSdk serde lib s.directory c.config = .ok c.sdk := by
  have hinv := snapshotInv_of_run hrun hempty
  refine ⟨?_, hinv.kept, ?_⟩
  · intro entry hentry
    obtain ⟨c, rfl, hready, hwrote⟩ := hinv.current entry hentry
    obtain ⟨saved, hsnapshot⟩ := hinv.snapshot hscoped hready hwrote hentry
    exact ⟨c, saved, rfl, hsnapshot⟩
  · rintro as t bs c json rfl hreturned hkeep hjp hauth hlen
    obtain ⟨hbefore, hstep, hafter⟩ := hrun.around
    obtain ⟨hready, hwrote, hcurrent⟩ := (snapshotInv_of_run hbefore hempty).returned hstep hreturned
    have hmem : ∀ u ∈ as, u ∈ as ++ t :: bs := fun u hu => List.mem_append_left _ hu
    rw [← entry_of_run hafter hkeep] at hcurrent
    obtain ⟨saved, hsnapshot⟩ :=
      hinv.snapshot hscoped (hready.mono hmem) (hwrote.mono hmem) hcurrent
    have hsdk := hinv.fits c .sdk (by rintro ⟨⟩) hsnapshot.wroteSdk
    have hgame := hinv.fits c (.game saved) (by rintro ⟨⟩) hsnapshot.wroteGame
    refine ⟨saved, hsnapshot, ?_, ?_⟩
    · exact LoginConfig.credentials_of_entries hcurrent hlen c.pointer_accepted
        hsnapshot.gameFile hgame
    · exact LoginConfig.approvedSdk_of_entries hurl hcurrent hlen c.pointer_accepted hauth hjp
        hsnapshot.sdkFile hsdk

/-! ### A call that succeeds -/

/-- The events of a file that is written in one piece. -/
def fileEvents (client : Client ι) (temp : String) (content : Text) : List (Event ι) :=
  [.act (.proceed client), .act (.disk (.create temp)), .act (.disk (.write content)),
    .act (.disk .sync), .act (.disk .move)]

/-- The directory once `file` of the call `c` stands under its name. -/
def placed (c : PersistCall) (file : PersistFile) (d : StateDir) : StateDir :=
  d.set (c.job file).target (some (.file true (c.job file).content))

theorem placed_self (c : PersistCall) (file : PersistFile) (d : StateDir) :
    (placed c file d).entries (c.job file).target = some (.file true (c.job file).content) :=
  Directory.set_self _ _ _

theorem placed_of_ne {c : PersistCall} {file : PersistFile} {d : StateDir} {name : String}
    (h : name ≠ (c.job file).target) : (placed c file d).entries name = d.entries name :=
  Directory.set_of_ne _ _ h

theorem target_game_ne_sdk (c : PersistCall) (saved : StaticCredentials) :
    (c.job (.game saved)).target ≠ (c.job .sdk).target := by
  intro heq
  have hlist := congrArg String.toList heq
  simp [PersistCall.job, Uuid.sdkName, Uuid.gameName] at hlist

theorem exec_file {c : PersistCall} {file : PersistFile} {d : StateDir} {n : ℕ}
    {client : Client ι} {temp : String} (htemp : isHidden temp = true)
    (hfresh : d.entries temp = none) (hchecks : c.checks d file = .ok ())
    (hfree : (c.job file).replace = true ∨ d.entries (c.job file).target = none) :
    exec step ⟨d, n, some (c, .checking file), none⟩
        (fileEvents client temp (c.job file).content) =
      some ⟨placed c file d, n, some (c, file.next), none⟩ := by
  have hne : temp ≠ (c.job file).target := by
    rintro rfl
    rw [isHidden_target c file] at htemp
    cases htemp
  have hfree' : (c.job file).replace = true ∨
      ((d.set temp (some (.file true (c.job file).content))).entries (c.job file).target).isNone := by
    rw [Directory.set_of_ne _ _ hne.symm, Option.isNone_iff_eq_none]
    exact hfree
  simp only [exec, fileEvents, List.foldlM_cons, List.foldlM_nil, step, persistStep, hchecks,
    Job.step, htemp, hfresh, advance, Directory.set_set, List.nil_append, if_pos hfree',
    Directory.rename_set d _ _ hfresh, placed, Option.bind_eq_bind, Option.bind_some,
    Option.isNone_none, List.prefix_rfl, and_self, if_true, Option.pure_def]

/-- A call up to the flush of the directory, with every system call succeeding. -/
def persistEvents (c : PersistCall) (saved : StaticCredentials) (client : Client ι)
    (temp : String) : List (Event ι) :=
  [.persist c.config c.sdk c.id client] ++ fileEvents client temp (c.job .sdk).content ++
    [.act (.proceed client)] ++ fileEvents client temp (c.job (.game saved)).content ++
    [.act (.proceed client)] ++ fileEvents client temp (c.job .pointer).content

theorem createChecks_eq_ok {d : StateDir} {content : Text} (hd : d.isPrivate = true)
    (h : byteLength content ≤ fileLimit) : createChecks d content = .ok () := by
  simp only [createChecks, Except.bind_eq_ok, Except.refuse_eq_ok]
  exact ⟨(), Nat.not_lt.2 h, by simp [hd]⟩

theorem exec_persist {c : PersistCall} {saved : StaticCredentials} {client : Client ι}
    {temp : String} {d : StateDir} {o : Option (Except ClientError Unit)}
    (hd : d.isPrivate = true) (htemp : isHidden temp = true) (hfresh : d.entries temp = none)
    (hsdkFree : d.entries c.id.sdkName = none) (hgameFree : d.entries c.id.gameName = none)
    (hcurrent : d.entries currentFile = none) (hgeneration : client.current = c.generation)
    (hexport : client.exported c.generation = .ok saved)
    (hsdk : byteLength c.sdk.json ≤ fileLimit) (hgame : byteLength saved.json ≤ fileLimit) :
    exec step ⟨d, c.number, none, o⟩ (persistEvents c saved client temp) =
      some ⟨placed c .pointer (placed c (.game saved) (placed c .sdk d)), c.number + 1,
        some (c, .switched), none⟩ := by
  have hvisible : ∀ file, temp ≠ (c.job file).target := by
    rintro file rfl
    rw [isHidden_target c file] at htemp
    cases htemp
  have hsdkName : currentFile ≠ (c.job .sdk).target :=
    (target_ne_current c (by rintro ⟨⟩)).symm
  have hgameName : currentFile ≠ (c.job (.game saved)).target :=
    (target_ne_current c (by rintro ⟨⟩)).symm
  -- the directories after the SDK file and after the game file
  have hfresh1 : (placed c .sdk d).entries temp = none := by
    rw [placed_of_ne (hvisible .sdk), hfresh]
  have hfresh2 : (placed c (.game saved) (placed c .sdk d)).entries temp = none := by
    rw [placed_of_ne (hvisible (.game saved)), hfresh1]
  have hgameFree1 : (placed c .sdk d).entries (c.job (.game saved)).target = none := by
    rw [placed_of_ne (target_game_ne_sdk c saved)]
    exact hgameFree
  have hcurrent2 : (placed c (.game saved) (placed c .sdk d)).entries currentFile = none := by
    rw [placed_of_ne hgameName, placed_of_ne hsdkName, hcurrent]
  have hpublish : c.checks (placed c (.game saved) (placed c .sdk d)) .pointer = .ok () := by
    simp only [PersistCall.checks, publishChecks, privateDir, Except.bind_eq_ok,
      Except.refuse_eq_ok, hcurrent2]
    exact ⟨(), by simp [placed, hd], rfl⟩
  have hbegin : exec step (⟨d, c.number, none, o⟩ : OperatorState)
      [Event.persist c.config c.sdk c.id client] =
        some ⟨d, c.number + 1, some (c, .checking .sdk), none⟩ := by
    simp [exec, step, privateDir, Except.refuse, hd, hgeneration]
  have hexported : exec step ⟨placed c .sdk d, c.number + 1, some (c, .exporting), none⟩
      [Event.act (.proceed client)] =
        some ⟨placed c .sdk d, c.number + 1, some (c, .checking (.game saved)), none⟩ := by
    simp [exec, step, persistStep, hexport, advance]
  have hrechecked : exec step
      ⟨placed c (.game saved) (placed c .sdk d), c.number + 1, some (c, .rechecking), none⟩
      [Event.act (.proceed client)] =
        some ⟨placed c (.game saved) (placed c .sdk d), c.number + 1,
          some (c, .checking .pointer), none⟩ := by
    simp [exec, step, persistStep, hgeneration, advance]
  have hsdkFile : exec step ⟨d, c.number + 1, some (c, .checking .sdk), none⟩
      (fileEvents client temp (c.job .sdk).content) =
        some ⟨placed c .sdk d, c.number + 1, some (c, .exporting), none⟩ :=
    exec_file htemp hfresh (createChecks_eq_ok hd hsdk) (.inr hsdkFree)
  have hgameFile : exec step ⟨placed c .sdk d, c.number + 1, some (c, .checking (.game saved)), none⟩
      (fileEvents client temp (c.job (.game saved)).content) =
        some ⟨placed c (.game saved) (placed c .sdk d), c.number + 1, some (c, .rechecking), none⟩ :=
    exec_file htemp hfresh1 (createChecks_eq_ok hd hgame) (.inr hgameFree1)
  simp only [persistEvents, List.append_assoc]
  rw [exec_append hbegin, exec_append hsdkFile, exec_append hexported, exec_append hgameFile,
    exec_append hrechecked]
  exact exec_file htemp hfresh2 hpublish (.inl rfl)

/-- A run under one configuration, whose client has the region and the origin of it, is scoped. -/
theorem scoped_of_run {config : SessionConfig} {client : Client ι}
    (hregion : client.session.config.region = config.region)
    (horigin : client.session.config.origin = config.origin)
    (hrun : Run step (initial d₀) ts s)
    (hcalls : ∀ t ∈ ts, ∀ config' sdk id client', t.event = .persist config' sdk id client' →
      config' = config)
    (hclient : ∀ t ∈ ts, ∀ client', t.event = .act (.proceed client') → client' = client) :
    (∀ c stage, s.running = some (c, stage) → c.config = config) ∧ ∀ t ∈ ts, Scoped t := by
  induction hrun with
  | nil =>
    refine ⟨?_, by simp⟩
    rintro c stage ⟨⟩
  | @snoc ts m e s' _ he ih =>
    have hmem : ∀ t ∈ ts, t ∈ ts ++ [⟨m, e, s'⟩] := fun t ht => List.mem_append_left _ ht
    have hlast : (⟨m, e, s'⟩ : Transition OperatorState (Event ι)) ∈ ts ++ [⟨m, e, s'⟩] :=
      List.mem_append_right _ List.mem_cons_self
    obtain ⟨hconfig, hscoped⟩ := ih (fun t ht => hcalls t (hmem t ht)) fun t ht =>
      hclient t (hmem t ht)
    constructor
    · intro c stage hr
      cases Step.of_step he with
      | refused => cases hr
      | begun =>
        cases hr
        exact hcalls _ hlast _ _ _ _ rfl
      | crashed => cases hr
      | @acted _ _ _ _ p running =>
        cases p with
        | running stage' =>
          cases hr
          exact hconfig _ _ running
        | returned => cases hr
    · intro t ht
      rcases List.mem_append.1 ht with ht | ht
      · exact hscoped t ht
      · obtain rfl := List.mem_singleton.1 ht
        intro c client' hr hevent
        rw [hconfig _ _ hr, hclient _ hlast _ hevent]
        exact ⟨hregion, horigin⟩

/-- A first call of `persist` whose files fit returns `Ok`, whatever the SDK authorization and the
length of the pointer. -/
theorem persist_returns {c : PersistCall} {saved : StaticCredentials} {client : Client ι}
    {temp : String} {d : StateDir} (hnumber : c.number = 0) (hd : d.isPrivate = true)
    (htemp : isHidden temp = true) (hempty : ∀ name, d.entries name = none)
    (hgeneration : client.current = c.generation)
    (hexport : client.exported c.generation = .ok saved)
    (hregion : client.session.config.region = c.config.region)
    (horigin : client.session.config.origin = c.config.origin)
    (hsdk : byteLength c.sdk.json ≤ fileLimit) (hgame : byteLength saved.json ≤ fileLimit) :
    ∃ (ts : List (Transition OperatorState (Event ι))) (t : Transition OperatorState (Event ι)),
      Run step (initial d) (ts ++ [t]) t.after ∧ (∀ u ∈ ts ++ [t], Scoped u) ∧ Returned t c ∧
        t.after.directory = placed c .pointer (placed c (.game saved) (placed c .sdk d)) := by
  have hexec := exec_persist (o := none) hd htemp (hempty _) (hempty _) (hempty _) (hempty _)
    hgeneration hexport hsdk hgame
  rw [hnumber] at hexec
  have hrun : Run step (initial d) _ _ := run_transitions hexec
  have hfinish := hrun.snoc (e := Event.act (.disk .sync)) rfl
  have hevents : ∀ u ∈ transitions step (initial d) (persistEvents c saved client temp),
      u.event ∈ persistEvents c saved client temp := fun u => event_mem_of_transitions
  refine ⟨_, _, hfinish, ?_, ⟨⟨_, rfl⟩, rfl⟩, rfl⟩
  refine (scoped_of_run hregion horigin hfinish ?_ ?_).2
  · intro t ht config' sdk id client' hevent
    rcases List.mem_append.1 ht with ht | ht
    · have hmem := hevents t ht
      rw [hevent] at hmem
      simp only [persistEvents, fileEvents, List.mem_append, List.mem_cons, List.not_mem_nil,
        Event.persist.injEq, reduceCtorEq, or_false] at hmem
      exact hmem.1
    · obtain rfl := List.mem_singleton.1 ht
      cases hevent
  · intro t ht client' hevent
    rcases List.mem_append.1 ht with ht | ht
    · have hmem := hevents t ht
      rw [hevent] at hmem
      simpa [persistEvents, fileEvents] using hmem
    · obtain rfl := List.mem_singleton.1 ht
      cases hevent

/-! ### Sample calls -/

def emptyDirectory : StateDir := ⟨true, fun _ => none⟩

theorem sampleId_length : "00000000-0000-4000-8000-000000000000".toList.length = 36 := by
  decide

theorem sampleId_digits : "00000000-0000-4000-8000-000000000000".toList.all
    (fun c => c ∈ "0123456789abcdef-".toList) = true := by
  decide

def sampleId : Uuid :=
  ⟨"00000000-0000-4000-8000-000000000000", sampleId_length, sampleId_digits⟩

def sampleCallback : Callback := ⟨"uid", "token", none⟩

/-- A call under the sample configuration with another region in it. -/
def regionCall (region sdkRegion : String) : PersistCall where
  number := 0
  config := { sampleConfig with region := region }
  sdk := ⟨sdkRegion, "https://game.example", sampleCallback⟩
  id := sampleId
  generation := 0

/-- A client whose session is one of the given region. -/
def regionClient (region : String) : Client ℕ :=
  Client.initial Client.sampleOptions
    (.fresh { sampleConfig with region := region } (some sampleCredentials) sampleTransport) 0

def regionSaved (region : String) : StaticCredentials :=
  ⟨region, "https://game.example", sampleCredentials⟩

theorem origin_sample (value target : String) (h : origin sampleLibraries value = .ok target) :
    origin sampleLibraries target = .ok target := by
  by_cases hv : value = "https://game.example"
  · subst hv
    cases h
    rfl
  · simp [origin, sampleLibraries, hv] at h

/-- A callback is imported under the sample configuration with any region but `jp`. -/
theorem import_sample {region : String} (hne : region ≠ "") (hjp : region ≠ "jp") :
    SdkAuthorization.fromCallbackJson .compact sampleLibraries (regionCall region region).config
      sampleCallback.json = .ok (regionCall region region).sdk := by
  have hvalid : (regionCall region region).config.validate sampleLibraries = .ok () := by
    have hmetadata : (regionCall region region).config.metadata sampleLibraries none "validation"
        false = sampleConfig.metadata sampleLibraries none "validation" false := rfl
    simp only [SessionConfig.validate, Except.bind_eq_ok, Except.refuse_eq_ok, hmetadata]
    refine ⟨"https://game.example", rfl, (), ?_, _, rfl, rfl⟩
    simp only [regionCall, hne, hjp, false_and, false_or, or_false, ne_eq, not_false_eq_true,
      true_and]
    decide +kernel
  have hlength : ¬ 64 * 1024 < byteLength sampleCallback.json := by decide +kernel
  simp only [SdkAuthorization.fromCallbackJson, Except.bind_eq_ok, Except.refuse_eq_ok]
  refine ⟨(), hvalid, (), ?_, ?_⟩
  · exact not_or.2 ⟨not_not.2 rfl, hlength⟩
  · rw [Serde.compact.callback_json]
    rfl

theorem snapshots_consistent_saved :
    ∃ (s : OperatorState) (saved : StaticCredentials),
      LoginConfig.credentials .compact s.directory sampleConfig = .ok (some saved) ∧
      LoginConfig.approvedSdk .compact sampleLibraries s.directory sampleConfig =
        .ok (regionCall "global" "global").sdk := by
  obtain ⟨ts, t, hrun, hscoped, hreturned, -⟩ :=
    @persist_returns ℕ (regionCall "global" "global") (regionSaved "global")
      (regionClient "global") ".tmp" emptyDirectory rfl rfl (by decide) (fun _ => rfl) rfl rfl
      rfl rfl (by decide +kernel) (by decide +kernel)
  obtain ⟨-, -, hread⟩ := snapshots_consistent origin_sample rfl hrun hscoped
  obtain ⟨saved, -, hcredentials, hsdk⟩ := hread ts t [] _ _ rfl hreturned (by simp) (by decide)
    (import_sample (by decide) (by decide)) (by decide +kernel)
  exact ⟨t.after, saved, hcredentials, hsdk⟩

/-! ### Two calls that cannot be read back -/

/-- A region of the given length. -/
@[irreducible] def longRegion (n : ℕ) : String := .ofList (List.replicate n 'a')

theorem byteLength_longRegion (n : ℕ) : byteLength (string (longRegion n)) = n + 2 := by
  have hlist : (longRegion n).toList = List.replicate n 'a' := by
    rw [longRegion, String.toList_ofList]
  have hchars : ∀ c ∈ (longRegion n).toList, escape c = [c] := by
    intro c hc
    rw [hlist] at hc
    obtain rfl := (List.mem_replicate.1 hc).2
    decide
  have hone : 'a'.utf8Size = 1 := rfl
  rw [byteLength_string hchars, hlist, byteLength, List.map_replicate, List.sum_replicate, hone]
  simp

theorem byteLength_pointer (region sdkRegion : String) :
    byteLength (regionCall region sdkRegion).pointer.json = byteLength (string region) + 163 := by
  have hempty : byteLength (regionCall "" sdkRegion).pointer.json = 165 := by
    have hsame : (regionCall "" sdkRegion).pointer = (regionCall "" "").pointer := rfl
    rw [hsame]
    decide +kernel
  have hquotes : byteLength (string "") = 2 := by decide
  simp only [Pointer.json, PersistCall.pointer, regionCall, byteLength_append, hquotes] at hempty ⊢
  omega

theorem byteLength_saved (region : String) :
    byteLength (regionSaved region).json = byteLength (string region) + 129 := by
  have hempty : byteLength (regionSaved "").json = 131 := by decide +kernel
  have hquotes : byteLength (string "") = 2 := by decide
  simp only [StaticCredentials.json, regionSaved, byteLength_append, hquotes] at hempty ⊢
  omega

theorem byteLength_sdk (region sdkRegion : String) :
    byteLength (regionCall region sdkRegion).sdk.json = byteLength (string sdkRegion) + 105 := by
  have hempty : byteLength (regionCall "" "").sdk.json = 107 := by decide +kernel
  have hquotes : byteLength (string "") = 2 := by decide
  simp only [SdkAuthorization.json, regionCall, byteLength_append, hquotes] at hempty ⊢
  omega

theorem longRegion_ne {n : ℕ} {region : String} (h : region.toList.length ≠ n) :
    longRegion n ≠ region := by
  rintro rfl
  rw [longRegion, String.toList_ofList, List.length_replicate] at h
  exact h rfl

theorem credentials_of_long {serde : Serde} {d : StateDir} {config : SessionConfig} {text : Text}
    (hcurrent : d.entries currentFile = some (.file true text))
    (hlong : fileLimit < byteLength text) :
    LoginConfig.credentials serde d config = .error badConfig := by
  have hread : privateRead d currentFile = .error badConfig := by
    simp [privateRead, secretRead, hcurrent, hlong]
  simp only [LoginConfig.credentials, hcurrent, LoginConfig.pointer, hread]
  rfl

/-- An authorization for another region is not returned. -/
theorem approvedSdk_of_region {serde : Serde} {lib : Libraries} {d : StateDir}
    {config : SessionConfig} {p : Pointer} {sdk : SdkAuthorization}
    (hcurrent : d.entries currentFile = some (.file true p.json))
    (hlen : byteLength p.json ≤ fileLimit) (hp : p.Accepted config)
    (hentry : d.entries p.sdkFile = some (.file true sdk.json))
    (hsdk : byteLength sdk.json ≤ fileLimit) (horigin : origin lib sdk.origin = .ok sdk.origin)
    (hregion : sdk.region ≠ config.region) :
    LoginConfig.approvedSdk serde lib d config = .error badConfig := by
  have hread : secretRead d p.sdkFile = .ok sdk.json := secretRead_eq_ok.2 ⟨hentry, hsdk⟩
  have hbinding : sdk.checkBinding lib config = .error badConfig := by
    simp [SdkAuthorization.checkBinding, Except.refuse, hregion]
    rfl
  rw [LoginConfig.approvedSdk, LoginConfig.pointer_of_entry hcurrent hlen hp]
  simp only [SdkAuthorization.fromFile, bind, Except.bind, hread, serde.stored_json, horigin,
    hbinding]

/-- Both readers can fail after a call that returned `Ok`: `persist` compares neither the region of
the SDK authorization with its configuration, nor the length of the pointer with `LIMIT`. -/
theorem saved_unreadable :
    (∃ (ts : List (Transition OperatorState (Event ℕ)))
        (t : Transition OperatorState (Event ℕ)),
      Run step (initial emptyDirectory) (ts ++ [t]) t.after ∧ (∀ u ∈ ts ++ [t], Scoped u) ∧
        Returned t (regionCall "global" "other") ∧
        LoginConfig.approvedSdk .compact sampleLibraries t.after.directory sampleConfig =
          .error badConfig) ∧
    ∃ (ts : List (Transition OperatorState (Event ℕ))) (t : Transition OperatorState (Event ℕ))
        (c : PersistCall),
      c = regionCall (longRegion 65400) (longRegion 65400) ∧
      Run step (initial emptyDirectory) (ts ++ [t]) t.after ∧ (∀ u ∈ ts ++ [t], Scoped u) ∧
        Returned t c ∧
        SdkAuthorization.fromCallbackJson .compact sampleLibraries c.config sampleCallback.json =
          .ok c.sdk ∧
        LoginConfig.credentials .compact t.after.directory c.config = .error badConfig := by
  constructor
  · obtain ⟨ts, t, hrun, hscoped, hreturned, hdirectory⟩ :=
      @persist_returns ℕ (regionCall "global" "other") (regionSaved "global")
        (regionClient "global") ".tmp" emptyDirectory rfl rfl (by decide) (fun _ => rfl) rfl rfl
        rfl rfl (by decide +kernel) (by decide +kernel)
    refine ⟨ts, t, hrun, hscoped, hreturned, ?_⟩
    have hcurrent : (PersistCall.job (regionCall "global" "other") .sdk).target ≠ currentFile :=
      target_ne_current _ (by simp)
    have hgame := target_game_ne_sdk (regionCall "global" "other") (regionSaved "global")
    have hentry : t.after.directory.entries (regionCall "global" "other").pointer.sdkFile =
        some (.file true (regionCall "global" "other").sdk.json) := by
      rw [hdirectory]
      exact ((placed_of_ne hcurrent).trans (placed_of_ne hgame.symm)).trans (placed_self _ .sdk _)
    refine approvedSdk_of_region ?_ (by decide +kernel) (PersistCall.pointer_accepted _) hentry
      (by decide +kernel) rfl (by decide)
    rw [hdirectory]
    exact placed_self _ .pointer _
  · have hlength := byteLength_longRegion 65400
    obtain ⟨ts, t, hrun, hscoped, hreturned, hdirectory⟩ :=
      @persist_returns ℕ (regionCall (longRegion 65400) (longRegion 65400))
        (regionSaved (longRegion 65400)) (regionClient (longRegion 65400)) ".tmp" emptyDirectory
        rfl rfl (by decide) (fun _ => rfl) rfl rfl rfl rfl
        (by rw [byteLength_sdk, hlength]; decide) (by rw [byteLength_saved, hlength]; decide)
    refine ⟨ts, t, _, rfl, hrun, hscoped, hreturned,
      import_sample (longRegion_ne (by decide)) (longRegion_ne (by decide)), ?_⟩
    rw [hdirectory]
    refine credentials_of_long (placed_self _ .pointer _) ?_
    show fileLimit < byteLength (regionCall (longRegion 65400) (longRegion 65400)).pointer.json
    rw [byteLength_pointer, hlength]
    decide

end MoenotesApi.OperatorState
