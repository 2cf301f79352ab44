import MoenotesApi.Client.Step
import Mathlib.Tactic

/-!
# The state of the managed client

`State` of `managed.rs` and what its critical sections do to it, as functions of the values that
they read of the client and of the environment.

* `State.observed`: the critical section of `observed`, with the worker that it starts;
* `State.ended`: the end of a worker;
* `State.synced`: the end of `sync_versions` (`managed/versions.rs`);
* `State.reloaded`: a reload whose closure has succeeded.

Each has one lemma that says what it can do, and the later modules cite only that lemma.
-/

namespace MoenotesApi

inductive Phase
  | unverified
  | ready
  | recovering
  | recovered
  | reauthenticationRequired
  | versionBlocked
  | deviceConflict
  | persistenceFailed
  deriving DecidableEq, Repr

/-- The phases in which protected queries are refused. -/
def Phase.closed (phase : Phase) : Bool := phase = .recovering || phase = .persistenceFailed

theorem Phase.closed_eq_false {phase : Phase} :
    phase.closed = false ↔ phase ≠ .recovering ∧ phase ≠ .persistenceFailed := by
  cases phase <;> simp [closed]

structure DataVersions where
  masterVersion : String
  resourceVersion : String
  deriving DecidableEq, Repr

structure VersionSyncStatus where
  intervalSeconds : ℕ
  current : Option DataVersions
  clientVersion : String
  followClientUpdates : Bool
  checks : ℕ
  updates : ℕ
  clientUpdates : ℕ
  lastCheckedAt : Option ℕ
  lastError : Option ErrorKind
  deriving DecidableEq, Repr

namespace ManagedClient

/-- The values under the state lock; `ρ` are the revisions of the account input. -/
structure State (ρ : Type) where
  versionUpdating : Bool
  versionSync : Option VersionSyncStatus
  phase : Phase
  attempts : ℕ
  successes : ℕ
  attempted : Option ℕ
  initialAttempted : Option (ℕ × Option ρ)
  versionRejectedAttempt : Option ℕ
  lastAttempt : Option ℕ
  lastError : Option ErrorKind
  deriving DecidableEq, Repr

/-- What `ManagedClient::new` and `with_initial_loader` are given.  `initialLoader` is the function
`input_revision` of the loader, of the input `I` that it reads. -/
structure Setup (I ρ : Type) where
  lib : Libraries
  options : ClientOptions
  recovery : Bool
  initialLoader : Option (I → Option ρ)
  cooldown : ℕ

/-- A task that `observed` has spawned: the generation it recovers, which of the two kinds it is, the
session configuration that it has read, and what `recover` has returned. -/
structure Worker where
  generation : ℕ
  initial : Bool
  config : Option SessionConfig
  result : Option (Except ClientError Unit)

/-- A worker that has not done anything yet. -/
def Worker.spawned (generation : ℕ) (initial : Bool) : Worker := ⟨generation, initial, none, none⟩

/-- The kind of the error of a result. -/
def failure {α : Type} : Except ClientError α → Option ErrorKind
  | .ok _ => none
  | .error e => some e.kind

namespace State

variable {I ρ : Type}

/-- The state in `ManagedClient::new`. -/
def new : State ρ where
  versionUpdating := false
  versionSync := none
  phase := .unverified
  attempts := 0
  successes := 0
  attempted := none
  initialAttempted := none
  versionRejectedAttempt := none
  lastAttempt := none
  lastError := none

/-- The phase that a failed query leads to. -/
def observedPhase : ErrorKind → Phase
  | .version => .versionBlocked
  | .deviceConflict => .deviceConflict
  | .authentication | .authenticationRequired => .reauthenticationRequired
  | _ => .unverified

/-- What every started worker does to the state. -/
def starting (s : State ρ) : State ρ :=
  { s with phase := .recovering, versionRejectedAttempt := none, attempts := s.attempts + 1 }

/-- `initial`: the result asks for an initial load. -/
def isInitial (result : Except ClientError Outcome) : Bool :=
  failure result = some .authenticationRequired

/-- `initial_revision`: what the loader's input is now, for a result that asks for a load. -/
def initialRevision (setup : Setup I ρ) (input : I) (generation : ℕ)
    (result : Except ClientError Outcome) : Option (ℕ × Option ρ) :=
  if isInitial result then setup.initialLoader.map fun revision => (generation, revision input)
  else none

/-- The critical section of `observed`, for a result of the current generation. -/
def observed [DecidableEq ρ] (setup : Setup I ρ) (s : State ρ) (input : I) (now generation : ℕ)
    (result : Except ClientError Outcome) : State ρ × Option Worker :=
  if s.phase.closed then (s, none)
  else
    let revision := initialRevision setup input generation result
    if revision.isSome ∧ revision = s.initialAttempted then (s, none)
    else
      match result with
      | .ok _ => ({ s with phase := .ready, lastError := none }, none)
      | .error e =>
        let s := { s with phase := observedPhase e.kind, lastError := some e.kind }
        if e.kind ≠ .authentication ∧ e.kind ≠ .authenticationRequired then (s, none)
        else if s.versionUpdating then (s, none)
        else if isInitial result then
          if setup.initialLoader.isNone then (s, none)
          else ({ s with initialAttempted := revision }.starting, some (.spawned generation true))
        else if setup.recovery = false then (s, none)
        else if s.attempted = some generation ∨
            s.lastAttempt.any fun t => now - t < setup.cooldown then (s, none)
        else
          ({ s with attempted := some generation, lastAttempt := some now }.starting,
            some (.spawned generation false))

/-- The phase after a worker that has failed and left the generation as it was. -/
def failedPhase (initial : Bool) : ErrorKind → Phase
  | .version => .versionBlocked
  | .deviceConflict => .deviceConflict
  | .invalidConfig => if initial then .reauthenticationRequired else .persistenceFailed
  | _ => .reauthenticationRequired

/-- The end of a worker; `current` is the generation of the client. -/
def ended (s : State ρ) (current : ℕ) (worker : Worker) : Except ClientError Unit → State ρ
  | .ok _ =>
    { s with
      phase := if worker.initial then .unverified else .recovered
      successes := s.successes + 1
      lastError := none }
  | .error e =>
    { s with
      versionRejectedAttempt :=
        if current = worker.generation ∧ e.clientUpdateRequired then some worker.generation
        else s.versionRejectedAttempt
      phase :=
        if current ≠ worker.generation then .persistenceFailed
        else failedPhase worker.initial e.kind
      lastError := some e.kind }

/-- `matches!(result, Ok(true))`: the versions have changed. -/
def changed : Except ClientError Outcome → Bool
  | .ok (.versions changed) => changed
  | _ => false

/-- The data versions that the status shows. -/
def dataVersions (config : SessionConfig) : Option DataVersions :=
  config.masterVersion.map fun master => ⟨master, config.resourceVersion.getD ""⟩

/-- The counters of the version status. -/
def checked (config : SessionConfig) (time : ℕ) (followed : Bool)
    (result : Except ClientError Outcome) (status : VersionSyncStatus) : VersionSyncStatus :=
  { status with
    checks := status.checks + 1
    lastCheckedAt := some time
    lastError := failure result
    clientVersion := config.clientVersion
    clientUpdates := status.clientUpdates + if followed then 1 else 0
    current := if (failure result).isNone then dataVersions config else status.current
    updates := status.updates + if changed result then 1 else 0 }

/-- `rearm`: a release was followed, after a worker that was refused for its client version. -/
def rearms (s : State ρ) (generation : ℕ) (followed : Option (String × String)) : Bool :=
  followed.isSome && s.versionRejectedAttempt = some generation

/-- A marker of the generation that was updated: it goes over to `current`, or is cleared. -/
def carry (rearm : Bool) (generation current : ℕ) (marker : Option ℕ) : Option ℕ :=
  if marker = some generation then (if rearm then none else some current) else marker

/-- The same for the marker of the initial load, which keeps its revision. -/
def carryInitial (rearm : Bool) (generation current : ℕ) (marker : Option (ℕ × Option ρ)) :
    Option (ℕ × Option ρ) :=
  match marker with
  | some (old, revision) =>
    if old = generation then (if rearm then none else some (current, revision)) else marker
  | none => none

/-- The last critical section of `sync_versions`, for the generation that it has read at its
beginning; `queryable` says that the client has no error for protected queries. -/
def synced (s : State ρ) (generation : ℕ) (followed : Option (String × String))
    (result : Except ClientError Outcome) (current : ℕ) (queryable : Bool)
    (config : SessionConfig) (time : ℕ) : State ρ :=
  let rearm := s.rearms generation followed
  let s := { s with versionUpdating := false }
  let s :=
    if changed result then
      { s with
        attempted := carry rearm generation current s.attempted
        initialAttempted := carryInitial rearm generation current s.initialAttempted
        versionRejectedAttempt := carry rearm generation current s.versionRejectedAttempt }
    else s
  let s :=
    if changed result && (rearm || queryable) then
      { s with phase := .unverified, lastError := none }
    else s
  { s with versionSync := s.versionSync.map (checked config time followed.isSome result) }

/-- A reload whose closure has returned `Ok`. -/
def reloaded (s : State ρ) : State ρ :=
  { s with
    phase := .unverified
    attempted := none
    initialAttempted := none
    versionRejectedAttempt := none
    lastAttempt := none
    lastError := none }

/-! ### What the critical sections do -/

/-- What the critical section of `observed` can do: nothing, a new phase, or a worker. -/
inductive Observes (setup : Setup I ρ) (s : State ρ) (input : I) (now generation : ℕ)
    (result : Except ClientError Outcome) : State ρ → Option Worker → Prop
  | skipped : Observes setup s input now generation result s none
  | noted {phase error} (hopen : s.phase.closed = false) (hphase : phase.closed = false) :
      Observes setup s input now generation result { s with phase := phase, lastError := error } none
  | initial {revision phase error} (hopen : s.phase.closed = false)
      (hresult : failure result = some .authenticationRequired)
      (hloader : setup.initialLoader = some revision) (hidle : s.versionUpdating = false)
      (hnew : s.initialAttempted ≠ some (generation, revision input)) :
      Observes setup s input now generation result
        { s with
          phase := phase
          lastError := error
          initialAttempted := some (generation, revision input) }.starting
        (some (.spawned generation true))
  | recovery {phase error} (hopen : s.phase.closed = false)
      (hresult : failure result = some .authentication)
      (hrecovery : setup.recovery = true) (hidle : s.versionUpdating = false)
      (hnew : s.attempted ≠ some generation)
      (hcool : ∀ t, s.lastAttempt = some t → setup.cooldown ≤ now - t) :
      Observes setup s input now generation result
        { s with
          phase := phase
          lastError := error
          attempted := some generation
          lastAttempt := some now }.starting
        (some (.spawned generation false))

theorem closed_observedPhase (kind : ErrorKind) : (observedPhase kind).closed = false := by
  cases kind <;> rfl

theorem Observes.of_observed [DecidableEq ρ] {setup : Setup I ρ} {s s' : State ρ} {input : I}
    {now generation : ℕ} {result : Except ClientError Outcome} {worker : Option Worker}
    (h : s.observed setup input now generation result = (s', worker)) :
    Observes setup s input now generation result s' worker := by
  cases result with
  | ok outcome =>
    simp only [observed] at h
    split_ifs at h with hclosed hsame
    · cases h
      exact .skipped
    · cases h
      exact .skipped
    · cases h
      exact .noted (by simpa using hclosed) rfl
  | error e =>
    simp only [observed] at h
    split_ifs at h with hclosed hsame hkind hupdating hinitial hloader hrecovery hspent
    · cases h
      exact .skipped
    · cases h
      exact .skipped
    · cases h
      exact .noted (by simpa using hclosed) (closed_observedPhase _)
    · cases h
      exact .noted (by simpa using hclosed) (closed_observedPhase _)
    · cases h
      exact .noted (by simpa using hclosed) (closed_observedPhase _)
    · -- an initial load
      cases hl : setup.initialLoader with
      | none => simp [hl] at hloader
      | some revision =>
        have hrev : initialRevision setup input generation (.error e) =
            some (generation, revision input) := by simp [initialRevision, hinitial, hl]
        rw [hrev] at h hsame
        cases h
        exact .initial (by simpa using hclosed) (by simpa [isInitial] using hinitial) hl
          (by simpa using hupdating) fun heq => hsame ⟨rfl, heq.symm⟩
    · cases h
      exact .noted (by simpa using hclosed) (closed_observedPhase _)
    · cases h
      exact .noted (by simpa using hclosed) (closed_observedPhase _)
    · -- a recovery
      have hresult : failure (.error e : Except ClientError Outcome) = some .authentication := by
        simp only [isInitial, failure, Option.some.injEq, decide_eq_true_eq] at hinitial ⊢
        tauto
      rw [not_or] at hspent
      cases h
      refine .recovery (by simpa using hclosed) hresult (by simpa using hrecovery)
        (by simpa using hupdating) hspent.1 fun t ht => ?_
      simpa [ht] using hspent.2

theorem failedPhase_ne_recovering (initial : Bool) (kind : ErrorKind) :
    failedPhase initial kind ≠ .recovering := by
  cases kind <;> cases initial <;> simp [failedPhase]

/-- A worker that `observed` starts has the generation of the result and has done nothing yet. -/
theorem Observes.eq_spawned {setup : Setup I ρ} {s s' : State ρ} {input : I} {now generation : ℕ}
    {result : Except ClientError Outcome} {w : Worker}
    (h : Observes setup s input now generation result s' (some w)) :
    w = .spawned generation w.initial := by
  cases h <;> rfl

/-- A worker is started in an open phase and while no sync runs. -/
theorem Observes.idle {setup : Setup I ρ} {s s' : State ρ} {input : I} {now generation : ℕ}
    {result : Except ClientError Outcome} {w : Worker}
    (h : Observes setup s input now generation result s' (some w)) :
    s.phase.closed = false ∧ s.versionUpdating = false := by
  cases h with
  | initial hopen _ _ hidle | recovery hopen _ _ hidle => exact ⟨hopen, hidle⟩

section Ended

variable (s : State ρ) (current : ℕ) (worker : Worker) (result : Except ClientError Unit)

@[simp] theorem ended_versionUpdating :
    (s.ended current worker result).versionUpdating = s.versionUpdating := by
  cases result <;> rfl

@[simp] theorem ended_attempted : (s.ended current worker result).attempted = s.attempted := by
  cases result <;> rfl

@[simp] theorem ended_initialAttempted :
    (s.ended current worker result).initialAttempted = s.initialAttempted := by
  cases result <;> rfl

@[simp] theorem ended_lastAttempt :
    (s.ended current worker result).lastAttempt = s.lastAttempt := by
  cases result <;> rfl

theorem ended_phase_ne_recovering : (s.ended current worker result).phase ≠ .recovering := by
  cases result with
  | ok _ => cases h : worker.initial <;> simp [ended, h]
  | error e =>
    simp only [ended]
    split_ifs
    · simp
    · exact failedPhase_ne_recovering _ _

theorem ended_persistenceFailed (h : current ≠ worker.generation) (e : ClientError) :
    (s.ended current worker (.error e)).phase = .persistenceFailed := by
  simp [ended, h]

/-- The marker of a refused client version: only the end of a worker that was refused sets it. -/
theorem ended_versionRejectedAttempt :
    (s.ended current worker result).versionRejectedAttempt = s.versionRejectedAttempt ∨
      ∃ e, result = .error e ∧ e.clientUpdateRequired = true ∧ current = worker.generation ∧
        (s.ended current worker result).versionRejectedAttempt = some worker.generation := by
  cases result with
  | ok _ => exact .inl rfl
  | error e =>
    by_cases hc : current = worker.generation ∧ e.clientUpdateRequired = true
    · exact .inr ⟨e, rfl, hc.2, hc.1, by simp [ended, hc]⟩
    · exact .inl (by simp [ended, hc])

end Ended

section Synced

variable (s : State ρ) (generation current time : ℕ) (followed : Option (String × String))
variable (result : Except ClientError Outcome) (queryable : Bool) (config : SessionConfig)

@[simp] theorem synced_versionUpdating :
    (s.synced generation followed result current queryable config time).versionUpdating = false := by
  simp only [synced]
  split_ifs <;> rfl

@[simp] theorem synced_lastAttempt :
    (s.synced generation followed result current queryable config time).lastAttempt =
      s.lastAttempt := by
  simp only [synced]
  split_ifs <;> rfl

@[simp] theorem synced_attempted :
    (s.synced generation followed result current queryable config time).attempted =
      if changed result then carry (s.rearms generation followed) generation current s.attempted
      else s.attempted := by
  simp only [synced]
  split_ifs <;> rfl

@[simp] theorem synced_initialAttempted :
    (s.synced generation followed result current queryable config time).initialAttempted =
      if changed result then
        carryInitial (s.rearms generation followed) generation current s.initialAttempted
      else s.initialAttempted := by
  simp only [synced]
  split_ifs <;> rfl

@[simp] theorem synced_versionRejectedAttempt :
    (s.synced generation followed result current queryable config time).versionRejectedAttempt =
      if changed result then
        carry (s.rearms generation followed) generation current s.versionRejectedAttempt
      else s.versionRejectedAttempt := by
  simp only [synced]
  split_ifs <;> rfl

/-- A marker that is there after the sync was there before, or has gone over to `current`. -/
theorem carry_eq_some {rearm : Bool} {marker : Option ℕ} {x : ℕ}
    (h : carry rearm generation current marker = some x) :
    marker = some x ∨ x = current ∧ marker = some generation := by
  unfold carry at h
  split_ifs at h with hm
  · exact .inr ⟨(Option.some.inj h).symm, hm⟩
  · exact .inl h

theorem carry_self (rearm : Bool) :
    carry rearm generation current (some generation) = if rearm then none else some current := by
  simp [carry]

theorem carryInitial_self (rearm : Bool) (revision : Option ρ) :
    carryInitial rearm generation current (some (generation, revision)) =
      if rearm then none else some (current, revision) := by
  simp [carryInitial]

theorem rearms_iff : s.rearms generation followed = true ↔
    followed.isSome = true ∧ s.versionRejectedAttempt = some generation := by
  simp [rearms]

theorem synced_phase :
    (s.synced generation followed result current queryable config time).phase = s.phase ∨
      (s.synced generation followed result current queryable config time).phase = .unverified := by
  simp only [synced]
  split_ifs <;> simp

end Synced

end State

end ManagedClient

end MoenotesApi
