import MoenotesApi.Managed.Budget
import MoenotesApi.Managed.Accounts

/-!
# Initial loads and the revision of their input

An initial load logs in with a password, so a load that has failed should not be tried again on the
same input.  `initial_attempted` remembers the generation and the revision of the last load, and
only these.

* `Consults`: an observation that asks for a load and finds a revision of the input;
* `InitialLoad`, `FailedLoad`: a load that is started, and one that ends with an error;
* `Undisturbed`: between two of them the marker is not overwritten;
* `failed_load_once`: then no revision that has failed is tried again without a reload or a rearming
  adoption;
* `failed_load_twice`: a file that is edited and restored is tried twice.
-/

namespace MoenotesApi.ManagedClient

open Runs

variable {I ρ : Type} {setup : Setup I ρ} {m m' : ManagedClient I ρ} {e : Event I}
variable {ts us : List (Transition (ManagedClient I ρ) (Event I))}

/-- An observation finds that the current session needs credentials, while a worker may be started,
and the input has the revision `v`. -/
def Consults (setup : Setup I ρ) (t : Transition (ManagedClient I ρ) (Event I)) (v : Option ρ) :
    Prop :=
  ∃ n result revision, t.event = .observe n ∧
    t.before.callers n = some (.locking t.before.client.current result) ∧
    failure result = some .authenticationRequired ∧ t.before.lock = none ∧
    t.before.state.phase.closed = false ∧ t.before.state.versionUpdating = false ∧
    setup.initialLoader = some revision ∧ revision t.before.input = v

/-- An initial load is started while the input has the revision `v`. -/
def InitialLoad (setup : Setup I ρ) (t : Transition (ManagedClient I ρ) (Event I)) (v : Option ρ) :
    Prop :=
  ∃ k w revision, Starts t k w ∧ w.initial = true ∧ setup.initialLoader = some revision ∧
    revision t.before.input = v

/-- An initial load is started while the input has the revision `v`, and ends with an error. -/
def FailedLoad (setup : Setup I ρ) (ts : List (Transition (ManagedClient I ρ) (Event I)))
    (t : Transition (ManagedClient I ρ) (Event I)) (v : Option ρ) : Prop :=
  ∃ k w revision, Starts t k w ∧ w.initial = true ∧ setup.initialLoader = some revision ∧
    revision t.before.input = v ∧ ∃ s ∈ ts, ∃ w' error, s.event = .workerEnd k ∧
      s.before.activities k = some (.worker w') ∧ w'.result = some (.error error)

theorem FailedLoad.load {t : Transition (ManagedClient I ρ) (Event I)} {v : Option ρ}
    (h : FailedLoad setup ts t v) : InitialLoad setup t v := by
  obtain ⟨k, w, revision, hw, hi, hloader, hv, -⟩ := h
  exact ⟨k, w, revision, hw, hi, hloader, hv⟩

/-- A client release is adopted after a worker that was refused for its client version. -/
def Rearms (t : Transition (ManagedClient I ρ) (Event I)) : Prop :=
  ∃ g, Adopts t g ∧ t.before.state.versionRejectedAttempt = some g

/-- Between a failed load and an observation that finds its revision again, with no reload and no
rearming adoption between them, no other revision is found, and the session is replaced by version
updates only. -/
def Undisturbed (setup : Setup I ρ) (ts : List (Transition (ManagedClient I ρ) (Event I))) : Prop :=
  ∀ (before between after : List (Transition (ManagedClient I ρ) (Event I)))
    (t₁ t₂ : Transition (ManagedClient I ρ) (Event I)) (v : Option ρ),
    ts = before ++ t₁ :: between ++ t₂ :: after → FailedLoad setup ts t₁ v →
    Consults setup t₂ v → (∀ t ∈ between, ¬ Reloaded t ∧ ¬ Rearms t) →
      ∀ t ∈ between, ¬ Renews t ∧ ∀ r, Consults setup t r → r = v

/-! ### The marker of initial loads -/

/-- The last initial load was of the generation that the markers refer to, with the revision `v`. -/
def Loaded (v : Option ρ) (m : ManagedClient I ρ) : Prop :=
  ∀ g, Reference m g → m.state.initialAttempted = some (g, v)

/-- An initial load is started by an observation, which sets the marker. -/
theorem loaded_of_start (hs : Sound m) (hstep : Step setup m e m') {k : ℕ} {w : Worker}
    (h : Starts (⟨m, e, m'⟩ : Transition (ManagedClient I ρ) (Event I)) k w)
    (hi : w.initial = true) {revision : I → Option ρ}
    (hloader : setup.initialLoader = some revision) :
    Consults setup (⟨m, e, m'⟩ : Transition (ManagedClient I ρ) (Event I)) (revision m.input) ∧
      Loaded (revision m.input) m' ∧ ¬ Loaded (revision m.input) m := by
  have href := fun g => reference_of_start (g := g) hs hstep h
  obtain ⟨n, result, he, hcaller, hfree, ho, hc, hnone, -⟩ := starts_cases hs hstep h
  have hidle : Reference m m.client.current :=
    reference_of_idle fun k s hk => by
      rw [hnone] at hk
      cases hk
  generalize hstate : m'.state = s at ho
  cases ho with
  | recovery => cases hi
  | @initial revision' _ _ hopen hresult hloader' hu hnew =>
    rw [hloader] at hloader'
    obtain rfl := Option.some.inj hloader'
    refine ⟨⟨n, result, revision, he, hcaller, hresult, hfree, hopen, hu, hloader, rfl⟩,
      fun g hg => ?_, fun hl => hnew (hl _ hidle)⟩
    rw [hstate, href g hg]
    rfl

/-- An event that neither replaces the session nor finds another revision keeps the marker. -/
theorem Loaded.step {v : Option ρ} (h : Loaded v m) (hk : Kept m) (hstep : Step setup m e m')
    (hreload : ¬ Reloaded (⟨m, e, m'⟩ : Transition (ManagedClient I ρ) (Event I)))
    (hrearm : ¬ Rearms (⟨m, e, m'⟩ : Transition (ManagedClient I ρ) (Event I)))
    (hrenew : ¬ Renews (⟨m, e, m'⟩ : Transition (ManagedClient I ρ) (Event I)))
    (hsame : ∀ r, Consults setup (⟨m, e, m'⟩ : Transition (ManagedClient I ρ) (Event I)) r → r = v) :
    Loaded v m' := by
  intro g' hg'
  -- without a sync that ends, the markers refer to the same generation
  have same : (∀ k time, e ≠ .syncEnd k time) → Reference m g' := by
    intro hsync
    rcases reference_of_step hk.sound hstep hg' with hg | ⟨k, time, _, _, _, _, he, _⟩ |
      ⟨-, -, hnext, hno⟩
    · exact hg
    · exact absurd he (hsync k time)
    · exact absurd ⟨hnext, hno⟩ hrenew
  cases hstep.markers with
  | kept _ hsync _ _ hi => exact hi.trans (h g' (same hsync))
  | @started n result w he hcaller hfree ho hc hact =>
    have hg := same fun k time he' => by
      rw [he] at he'
      cases he'
    have hstart : Starts (⟨m, e, m'⟩ : Transition (ManagedClient I ρ) (Event I)) m.nextActivity w :=
      ⟨hk.sound.exclusive.fresh _ le_rfl, by rw [hact, Function.update_self]⟩
    generalize hstate : m'.state = s at ho
    cases ho with
    | recovery => exact h g' hg
    | initial _ _ hloader =>
      obtain ⟨hconsults, hloaded, -⟩ := loaded_of_start hk.sound hstep hstart rfl hloader
      rw [← hstate, hloaded g' hg', hsame _ hconsults]
  | ended he _ _ hs =>
    rw [hs, State.ended_initialAttempted]
    exact h g' (same fun k time he' => by
      rw [he] at he'
      cases he')
  | @synced k time follow g result followed he hk' hs hc hact =>
    have hg : Reference m g := .inl ⟨k, _, hk', rfl⟩
    have hnone : ∀ x, ¬ Captures m' x := by
      rintro x ⟨j, s, hj, -⟩
      rw [hact, Function.update_apply] at hj
      split_ifs at hj with hjk
      exact hjk (hk.sound.exclusive.unique j k (by simp [hj]) (by simp [hk']))
    obtain rfl := reference_eq hnone hg'
    rw [hs, State.synced_initialAttempted, h g hg, State.carryInitial_self, hc]
    by_cases hch : State.changed result = true
    · rw [if_pos hch]
      refine if_neg fun hr => hrearm ?_
      obtain ⟨hf, hv⟩ := (State.rearms_iff _ _ _).1 hr
      obtain ⟨pair, rfl⟩ := Option.isSome_iff_exists.1 hf
      exact ⟨g, ⟨k, time, follow, result, pair, he, hk', hch⟩, hv⟩
    · rw [if_neg hch]
      -- a sync that has not changed the versions has not replaced the session
      rcases hk.tracked k _ g hk' rfl with hcur | ⟨-, ⟨hw, -⟩ | ⟨_, _, hf⟩⟩
      · rw [hcur]
      · cases hw
      · cases hf
        exact absurd rfl hch
  | reloaded hr => exact absurd hr hreload

theorem loaded_of_run [DecidableEq ρ] {v : Option ρ} (hrun : Run (step setup) m ts m')
    (hk : Kept m) (h : Loaded v m) (hno : ∀ t ∈ ts, ¬ Reloaded t ∧ ¬ Rearms t)
    (hsame : ∀ t ∈ ts, ¬ Renews t ∧ ∀ r, Consults setup t r → r = v) : Loaded v m' := by
  induction hrun with
  | nil => exact h
  | snoc hrun hstep ih =>
    have hlast := hno _ (List.mem_append_right _ (List.mem_singleton_self _))
    have hlast' := hsame _ (List.mem_append_right _ (List.mem_singleton_self _))
    exact (ih (fun t ht => hno t (List.mem_append_left _ ht)) fun t ht =>
      hsame t (List.mem_append_left _ ht)).step (kept_of_run hrun hk) (Step.of_step hstep)
      hlast.1 hlast.2 hlast'.1 hlast'.2

/-- **One failed load for each revision of the input.**  In every run of a managed client in which,
after a failed load, the marker is not overwritten before its revision is found again: between a
failed load and any later load of the same revision, however that one ends, there is a successful
reload or a rearming adoption. -/
theorem failed_load_once [DecidableEq ρ] {config : SessionConfig}
    {provider : Option StaticCredentials} {transport : Transport} {now : ℕ} {client : Client Task}
    {input : I} {ts : List (Transition (ManagedClient I ρ) (Event I))}
    (hclient : Client.withTransport setup.lib setup.options config provider transport now =
      .ok client)
    (hrun : Run (step setup) (initial client input) ts m) (hts : Undisturbed setup ts) :
    ∀ (before between after : List (Transition (ManagedClient I ρ) (Event I)))
      (t₁ t₂ : Transition (ManagedClient I ρ) (Event I)) (v : Option ρ),
      ts = before ++ t₁ :: between ++ t₂ :: after → FailedLoad setup ts t₁ v →
      InitialLoad setup t₂ v →
        ∃ t ∈ between, Reloaded t ∨ Rearms t := by
  intro before between after t₁ t₂ v hsplit h₁ h₂
  by_contra hno
  have hno' : ∀ t ∈ between, ¬ Reloaded t ∧ ¬ Rearms t := by
    intro t ht
    rw [← not_or]
    exact fun h => hno ⟨t, ht, h⟩
  have hk : Kept (initial client input : ManagedClient I ρ) := by
    obtain ⟨session, -, rfl⟩ := Client.withTransport_ok hclient
    exact kept_initial (fun _ => rfl) input
  obtain ⟨hhead, hstep₂, -⟩ := (hsplit ▸ hrun).around
  obtain ⟨hbefore, hstep₁, hbetween⟩ := hhead.around
  have hk₁ := kept_of_run hbefore hk
  have hk₁' := kept_of_run (Run.single hstep₁) hk₁
  have hk₂ := kept_of_run hbetween hk₁'
  have h₁' := h₁
  obtain ⟨k₁, w₁, revision, hw₁, hi₁, hloader, rfl, -⟩ := h₁'
  obtain ⟨k₂, w₂, revision', hw₂, hi₂, hloader', hv⟩ := h₂
  obtain ⟨-, hloaded, -⟩ := loaded_of_start hk₁.sound (Step.of_step hstep₁) hw₁ hi₁ hloader
  obtain ⟨hconsults, -, hnot⟩ := loaded_of_start hk₂.sound (Step.of_step hstep₂) hw₂ hi₂ hloader'
  rw [hv] at hconsults hnot
  exact hnot (loaded_of_run hbetween hk₁' hloaded hno'
    (hts before between after t₁ t₂ _ hsplit h₁ hconsults hno'))

/-! ### Two runs -/

/-- Whether an activity is an initial load. -/
def isInitialLoad : Option Activity → Bool
  | some (.worker w) => w.initial
  | _ => false

/-- Whether an activity is a worker that has returned an error. -/
def isFailedWorker : Option Activity → Bool
  | some (.worker w) => match w.result with
    | some (.error _) => true
    | _ => false
  | _ => false

/-- Whether a transition is the end of the worker `k`, with an error. -/
def failsAt (k : ℕ) (t : Transition (ManagedClient I ρ) (Event I)) : Bool :=
  match t.event with
  | .workerEnd j => j = k && isFailedWorker (t.before.activities k)
  | _ => false

theorem failedLoad_of_check {t : Transition (ManagedClient I ρ) (Event I)} {k : ℕ}
    {revision : I → Option ρ} (hloader : setup.initialLoader = some revision)
    (hnone : (t.before.activities k).isNone = true)
    (hinitial : isInitialLoad (t.after.activities k) = true) (hfails : ts.any (failsAt k) = true) :
    FailedLoad setup ts t (revision t.before.input) := by
  obtain ⟨s, hs, hfails⟩ := List.any_eq_true.1 hfails
  rw [Option.isNone_iff_eq_none] at hnone
  have hend : ∃ w error, s.event = .workerEnd k ∧ s.before.activities k = some (.worker w) ∧
      w.result = some (.error error) := by
    cases he : s.event with
    | workerEnd j =>
      simp only [failsAt, he, Bool.and_eq_true, decide_eq_true_eq] at hfails
      obtain ⟨rfl, hfails⟩ := hfails
      cases ha : s.before.activities j with
      | none => simp [ha, isFailedWorker] at hfails
      | some a =>
        cases a with
        | worker w =>
          cases hr : w.result with
          | none => simp [ha, isFailedWorker, hr] at hfails
          | some result =>
            cases result with
            | error error => exact ⟨w, error, rfl, rfl, hr⟩
            | ok => simp [ha, isFailedWorker, hr] at hfails
        | sync | reload => simp [ha, isFailedWorker] at hfails
    | _ => simp [failsAt, he] at hfails
  cases ha : t.after.activities k with
  | none => simp [ha, isInitialLoad] at hinitial
  | some a =>
    cases a with
    | worker w =>
      rw [ha] at hinitial
      exact ⟨k, w, revision, ⟨hnone, ha⟩, hinitial, hloader, rfl, s, hs, hend⟩
    | sync | reload => simp [ha, isInitialLoad] at hinitial

/-- Whether a transition keeps the session, or updates its versions. -/
def keepsLineage (t : Transition (ManagedClient I ρ) (Event I)) : Bool :=
  t.after.client.current = t.before.client.current ||
    match t.event with
    | .client (.finish task _) => isVersionOp (t.before.client.ops task)
    | _ => false

theorem not_renews_of_check {t : Transition (ManagedClient I ρ) (Event I)}
    (h : keepsLineage t = true) : ¬ Renews t := by
  rintro ⟨hnext, hno⟩
  have hne : t.before.client.current ≠ t.after.client.current := by omega
  simp only [keepsLineage, hne.symm, decide_false, Bool.false_or] at h
  split at h
  · next task files he => exact hno _ _ (versionUpdate_of_check he h hne)
  · cases h

theorem undisturbed_of_constant {v : Option ρ} (hnew : ∀ t ∈ ts, ¬ Renews t)
    (hsame : ∀ t ∈ ts, ∀ r, Consults setup t r → r = v) : Undisturbed setup ts := by
  rintro before between after t₁ t₂ r rfl - hr - t ht
  obtain rfl : r = v := hsame t₂ (by simp) r hr
  exact ⟨hnew t (by simp [ht]), hsame t (by simp [ht])⟩

section Sample

/-- The caller `n` asks for a profile under the generation `g` and gets as far as the state lock. -/
def askEvents {I : Type} (n g : ℕ) : List (Event I) :=
  [.execute n g ⟨.profile, [], true⟩, .call n "request", .returned n, .check n]

/-- The sample client, about to load its account. -/
def askingClient : ManagedClient ℕ ℕ :=
  (exec sampleStep sampleManaged (askEvents 0 0)).get (by decide +kernel)

def firstLoad : Transition (ManagedClient ℕ ℕ) (Event ℕ) :=
  transitionOf sampleStep askingClient (.observe 0) (by decide +kernel)

/-- The load is refused for its client version, a version sync adopts another one, and a caller asks
again. -/
def rearmingEvents : List (Event ℕ) :=
  [.workerReturn 0 (.error (.ofCode "CLIENT_UPDATE_REQUIRED")), .workerEnd 0,
    .syncBegin true, .syncGeneration 1, .syncRefresh 1 "request"] ++ startEvents (.writer 1) ++
  [.client (.answer (.writer 1) (.error (.ofCode "CLIENT_UPDATE_REQUIRED"))), .syncTake 1,
    .syncCandidates 1, .syncAdopt 1 "request"] ++ startEvents (.writer 1) ++
  [.client (.answer (.writer 1) (.ok ⟨.version "5" "6", none⟩)), .client (.check (.writer 1)),
    .client (.finish (.writer 1) ⟨true, true⟩), .syncTake 1, .syncEnd 1 0] ++ askEvents 1 1

def rearmedClient : ManagedClient ℕ ℕ :=
  (exec sampleStep firstLoad.after rearmingEvents).get (by decide +kernel)

def secondLoad : Transition (ManagedClient ℕ ℕ) (Event ℕ) :=
  transitionOf sampleStep rearmedClient (.observe 1) (by decide +kernel)

/-- The load fails once more. -/
def failingEvents : List (Event ℕ) := [.workerReturn 2 (.error (.new .business)), .workerEnd 2]

/-- The transitions between the two loads. -/
def rearmingRun : List (Transition (ManagedClient ℕ ℕ) (Event ℕ)) :=
  transitions sampleStep firstLoad.after rearmingEvents

def constantRun : List (Transition (ManagedClient ℕ ℕ) (Event ℕ)) :=
  transitions sampleStep sampleManaged (askEvents 0 0) ++ firstLoad :: rearmingRun ++
    secondLoad :: transitions sampleStep secondLoad.after failingEvents

theorem failed_load_once_rearmed : ∃ t ∈ rearmingRun, Reloaded t ∨ Rearms t := by
  have hclient : Client.withTransport sampleLibraries Client.sampleOptions sampleConfig none
      sampleTransport 0 = .ok sampleManaged.client := rfl
  have h₁ : Run sampleStep sampleManaged _ askingClient := run_get (askEvents 0 0) (by decide +kernel)
  have h₂ : Run sampleStep firstLoad.after rearmingRun rearmedClient :=
    run_get rearmingEvents (by decide +kernel)
  have h₃ : Run sampleStep secondLoad.after _ _ := run_get failingEvents (by decide +kernel)
  have hrun : Run (step sampleSetup) (initial sampleManaged.client 0) constantRun _ :=
    (h₁.append (run_transitionOf h₂)).append (run_transitionOf h₃)
  have hcheck : constantRun.all (fun t => keepsLineage t && t.before.input = 0) = true := by
    decide +kernel
  have hcheck' : ∀ t ∈ constantRun, keepsLineage t = true ∧ t.before.input = 0 := by
    simpa using hcheck
  have hconstant : Undisturbed sampleSetup constantRun := by
    refine undisturbed_of_constant (v := some 0) (fun t ht => not_renews_of_check (hcheck' t ht).1) ?_
    rintro t ht r ⟨n, result, revision, -, -, -, -, -, -, hloader, rfl⟩
    obtain rfl : some = revision := Option.some.inj hloader
    exact congrArg some (hcheck' t ht).2
  have hfirst : FailedLoad sampleSetup constantRun firstLoad (some firstLoad.before.input) :=
    failedLoad_of_check (k := 0) rfl (by decide +kernel) (by decide +kernel) (by decide +kernel)
  have hsecond : FailedLoad sampleSetup constantRun secondLoad (some secondLoad.before.input) :=
    failedLoad_of_check (k := 2) rfl (by decide +kernel) (by decide +kernel) (by decide +kernel)
  have hsame : secondLoad.before.input = firstLoad.before.input := by decide +kernel
  rw [hsame] at hsecond
  exact failed_load_once hclient hrun hconstant _ rearmingRun _ firstLoad secondLoad _ rfl hfirst
    hsecond.load

end Sample

section Restored

/-- The only account file holds one byte, which is parsed as the length of the password. -/
def accountFiles (length : UInt8) : AccountFiles where
  directory := .found
  privateDir := true
  metadata := fun _ => .missing
  readDir := some [some (some "account.json")]
  privateRead := fun _ => some [length]

def parseAccount : List UInt8 → Option Account
  | [length] => some ⟨"user", String.ofList (List.replicate length.toNat 'p')⟩
  | _ => none

def accountRevision : AccountFiles → Option (List UInt8) :=
  AccountDirectoryClient.inputRevision id parseAccount ⟨"/accounts/international", none, .single⟩

/-- The sample with an account directory for its loader. -/
def accountSetup : Setup AccountFiles (List UInt8) :=
  { lib := sampleLibraries
    options := Client.sampleOptions
    recovery := true
    initialLoader := some accountRevision
    cooldown := 60 }

def accountStart : ManagedClient AccountFiles (List UInt8) :=
  initial sampleManaged.client (accountFiles 1)

abbrev accountStep : ManagedClient AccountFiles (List UInt8) → Event AccountFiles →
    Option (ManagedClient AccountFiles (List UInt8)) := step accountSetup

def accountClient : ManagedClient AccountFiles (List UInt8) :=
  (exec accountStep accountStart (askEvents 0 0)).get (by decide +kernel)

/-- The load of the first file. -/
def wrongLoad : Transition (ManagedClient AccountFiles (List UInt8)) (Event AccountFiles) :=
  transitionOf accountStep accountClient (.observe 0) (by decide +kernel)

/-- It fails, the file is edited, the load of the edited file fails, and the file is restored. -/
def restoringEvents : List (Event AccountFiles) :=
  [.workerReturn 0 (.error (.new .authentication)), .workerEnd 0, .edit (accountFiles 2)] ++
  askEvents 1 0 ++
  [.observe 1, .workerReturn 1 (.error (.new .authentication)), .workerEnd 1,
    .edit (accountFiles 1)] ++ askEvents 2 0

def restoredClient : ManagedClient AccountFiles (List UInt8) :=
  (exec accountStep wrongLoad.after restoringEvents).get (by decide +kernel)

/-- The load of the restored file. -/
def wrongLoadAgain : Transition (ManagedClient AccountFiles (List UInt8)) (Event AccountFiles) :=
  transitionOf accountStep restoredClient (.observe 2) (by decide +kernel)

def againEvents : List (Event AccountFiles) :=
  [.workerReturn 2 (.error (.new .authentication)), .workerEnd 2]

def restoringRun : List (Transition (ManagedClient AccountFiles (List UInt8)) (Event AccountFiles)) :=
  transitions accountStep wrongLoad.after restoringEvents

def restoredRun : List (Transition (ManagedClient AccountFiles (List UInt8)) (Event AccountFiles)) :=
  transitions accountStep accountStart (askEvents 0 0) ++ wrongLoad :: restoringRun ++
    wrongLoadAgain :: transitions accountStep wrongLoadAgain.after againEvents

theorem failed_load_twice :
    (∃ u, Run accountStep accountStart restoredRun u) ∧
      FailedLoad accountSetup restoredRun wrongLoad (accountRevision (accountFiles 1)) ∧
      FailedLoad accountSetup restoredRun wrongLoadAgain (accountRevision (accountFiles 1)) ∧
      ∀ t ∈ restoringRun, ¬ Reloaded t ∧ ¬ Rearms t := by
  have h₁ : Run accountStep accountStart _ accountClient :=
    run_get (askEvents 0 0) (by decide +kernel)
  have h₂ : Run accountStep wrongLoad.after restoringRun restoredClient :=
    run_get restoringEvents (by decide +kernel)
  have h₃ : Run accountStep wrongLoadAgain.after _ _ := run_get againEvents (by decide +kernel)
  have hfirst : accountRevision wrongLoad.before.input = accountRevision (accountFiles 1) := by
    decide +kernel
  have hsecond : accountRevision wrongLoadAgain.before.input = accountRevision (accountFiles 1) := by
    decide +kernel
  refine ⟨⟨_, (h₁.append (run_transitionOf h₂)).append (run_transitionOf h₃)⟩, ?_, ?_, ?_⟩
  · rw [← hfirst]
    exact failedLoad_of_check (k := 0) rfl (by decide +kernel) (by decide +kernel)
      (by decide +kernel)
  · rw [← hsecond]
    exact failedLoad_of_check (k := 2) rfl (by decide +kernel) (by decide +kernel)
      (by decide +kernel)
  · intro t ht
    have hmem := event_mem_of_transitions ht
    constructor
    · rintro ⟨k, he, -⟩
      rw [he] at hmem
      simp [restoringEvents, askEvents] at hmem
    · rintro ⟨g, ⟨k, time, -, -, -, he, -⟩, -⟩
      rw [he] at hmem
      simp [restoringEvents, askEvents] at hmem

end Restored

end MoenotesApi.ManagedClient
