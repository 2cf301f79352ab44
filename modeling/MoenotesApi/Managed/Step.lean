import MoenotesApi.Managed.Machine
import MoenotesApi.Client.Install

/-!
# What one event does to the managed client

`ManagedClient.Step setup m e m'` lists the ways in which an event can happen, one constructor for
each branch of the source, with the guards of that branch; `Step.of_step` is the inversion lemma of
`ManagedClient.step`.  Two summaries follow from it, for the arguments that look at one part of the
state only.

* `Effect`: what happens to the state under the lock and to the activities;
* `ClientEffect`: the client is left alone or makes one step, on behalf of a caller or an activity.
-/

namespace MoenotesApi.ManagedClient

variable {I ρ : Type}

/-! ### The branches -/

/-- The events that can be refused without any effect. -/
def Event.begins : Event I → Bool
  | .execute .. | .queryError .. | .syncBegin .. | .reloadBegin => true
  | _ => false

/-- `m.step e` can lead to `m'`, by the named branch. -/
inductive Step (setup : Setup I ρ) : ManagedClient I ρ → Event I → ManagedClient I ρ → Prop
  | refused {m e} (he : e.begins = true) : Step setup m e m
  | client {m ce client} (hp : progresses ce = true)
      (hc : Client.step setup.lib setup.options m.client ce = some client) :
      Step setup m (.client ce) (m.setClient client)
  | stop {m} : Step setup m .stop { m with stopped := true }
  | edit {m input} : Step setup m (.edit input) { m with input := input }
  | startVersionSync {m interval follow status} (hl : m.lock = none) :
      Step setup m (.startVersionSync interval follow)
        { m with state := { m.state with versionSync := some status } }
  | execute {m n g query} (hn : m.callers n = none) (hg : g ≤ m.client.current)
      (hopen : query.method.anonymous = false → m.state.phase.closed = false) :
      Step setup m (.execute n g query) (m.setCaller n (some (.admitted g query)))
  | call {m n id g query client} (hn : m.callers n = some (.admitted g query))
      (hc : Client.step setup.lib setup.options m.client
        (.submit (.caller n) (.execute g query) id) = some client) :
      Step setup m (.call n id)
        ((m.setClient client).setCaller n (some (.calling g query.method.anonymous)))
  | returned {m n g anonymous result client} (hn : m.callers n = some (.calling g anonymous))
      (hr : m.client.ops (.caller n) = some (.done result))
      (hc : Client.step setup.lib setup.options m.client (.take (.caller n)) = some client) :
      Step setup m (.returned n)
        ((m.setClient client).setCaller n (some (.observing g anonymous result)))
  | dropCaller {m n g anonymous client} (hn : m.callers n = some (.calling g anonymous))
      (hc : Client.step setup.lib setup.options m.client (.drop (.caller n)) = some client) :
      Step setup m (.dropCaller n) ((m.setClient client).setCaller n none)
  | queryError {m n anonymous} (hn : m.callers n = none)
      (hopen : anonymous = false → m.state.phase.closed = false) :
      Step setup m (.queryError n anonymous) (m.setCaller n (some (.reading anonymous)))
  | readNoError {m n anonymous} (hn : m.callers n = some (.reading anonymous))
      (he : m.client.queryError anonymous = none) :
      Step setup m (.readError n) (m.setCaller n none)
  | readError {m n anonymous error} (hn : m.callers n = some (.reading anonymous))
      (he : m.client.queryError anonymous = some error) :
      Step setup m (.readError n) (m.setCaller n (some (.attributing anonymous error)))
  | readGeneration {m n anonymous error} (hn : m.callers n = some (.attributing anonymous error)) :
      Step setup m (.readGeneration n)
        (m.setCaller n (some (.observing m.client.current anonymous (.error error))))
  | checkFailed {m n g anonymous result}
      (hn : m.callers n = some (.observing g anonymous result)) :
      Step setup m (.check n) (m.setCaller n none)
  | check {m n g result} (hn : m.callers n = some (.observing g false result))
      (hg : m.client.current = g) (hs : m.stopped = false) :
      Step setup m (.check n) (m.setCaller n (some (.locking g result)))
  | observeStale {m n g result} (hn : m.callers n = some (.locking g result))
      (hg : m.client.current ≠ g) :
      Step setup m (.observe n) (m.setCaller n none)
  | observe {m n result state} (hn : m.callers n = some (.locking m.client.current result))
      (hl : m.lock = none)
      (ho : State.Observes setup m.state m.input m.client.now m.client.current result state none) :
      Step setup m (.observe n) ({ m with state := state }.setCaller n none)
  | observeSpawn {m n result state worker}
      (hn : m.callers n = some (.locking m.client.current result)) (hl : m.lock = none)
      (ho : State.Observes setup m.state m.input m.client.now m.client.current result state
        (some worker)) :
      Step setup m (.observe n)
        (({ m with state := state }.spawn (.worker worker)).setCaller n none)
  | workerCall {m k request id worker client} (hk : m.activities k = some (.worker worker))
      (hr : worker.result = none) (hq : recoveryCall worker.generation request = true)
      (hc : Client.step setup.lib setup.options m.client (.submit (.writer k) request id) =
        some client) :
      Step setup m (.workerCall k request id) (m.setClient client)
  | workerTake {m k worker client} (hk : m.activities k = some (.worker worker))
      (hr : worker.result = none)
      (hc : Client.step setup.lib setup.options m.client (.take (.writer k)) = some client) :
      Step setup m (.workerTake k) (m.setClient client)
  | workerConfig {m k worker} (hk : m.activities k = some (.worker worker))
      (hr : worker.result = none) :
      Step setup m (.workerConfig k)
        (m.setActivity k (some (.worker { worker with config := some m.client.sessionConfig })))
  | workerReplace {m k provider worker config client}
      (hk : m.activities k = some (.worker worker)) (hr : worker.result = none)
      (hconfig : worker.config = some config)
      (hc : Client.step setup.lib setup.options m.client (.replaceSession config (some provider)) =
        some client) :
      Step setup m (.workerReplace k provider)
        ((m.setClient client).setActivity k (some (.worker { worker with config := none })))
  | workerImport {m k provider worker client} (hk : m.activities k = some (.worker worker))
      (hr : worker.result = none)
      (hc : Client.step setup.lib setup.options m.client
        (.importCredentials worker.generation provider) = some client) :
      Step setup m (.workerImport k provider) (m.setClient client)
  | workerReturn {m k result worker} (hk : m.activities k = some (.worker worker))
      (hr : worker.result = none) (hop : m.client.ops (.writer k) = none) :
      Step setup m (.workerReturn k result)
        (m.setActivity k (some (.worker { worker with result := some result })))
  | workerInterrupted {m k result worker client} (hk : m.activities k = some (.worker worker))
      (hr : worker.result = none) (hi : m.interrupted result = true)
      (hc : Client.step setup.lib setup.options m.client (.drop (.writer k)) = some client) :
      Step setup m (.workerReturn k result)
        ((m.setClient client).setActivity k (some (.worker { worker with result := some result })))
  | workerEnd {m k result worker} (hk : m.activities k = some (.worker worker))
      (hr : worker.result = some result) (hl : m.lock = none) :
      Step setup m (.workerEnd k)
        { m.setActivity k none with state := m.state.ended m.client.current worker result }
  | syncBegin {m follow} (hl : m.lock = none) (hu : m.state.versionUpdating = false)
      (hopen : m.state.phase.closed = false) :
      Step setup m (.syncBegin follow)
        ({ m with state := { m.state with versionUpdating := true } }.spawn
          (.sync ⟨follow, .begun⟩))
  | syncGeneration {m k follow} (hk : m.activities k = some (.sync ⟨follow, .begun⟩)) :
      Step setup m (.syncGeneration k)
        (m.setActivity k (some (.sync ⟨follow, .captured m.client.current⟩)))
  | syncRefresh {m k id follow g client} (hk : m.activities k = some (.sync ⟨follow, .captured g⟩))
      (hc : Client.step setup.lib setup.options m.client
        (.submit (.writer k) (.version g none) id) = some client) :
      Step setup m (.syncRefresh k id)
        ((m.setClient client).setActivity k (some (.sync ⟨follow, .refreshing g⟩)))
  | syncTake {m k follow stage result client} (hk : m.activities k = some (.sync ⟨follow, stage⟩))
      (hw : stage.waits = true) (hr : m.client.ops (.writer k) = some (.done result))
      (hc : Client.step setup.lib setup.options m.client (.take (.writer k)) = some client) :
      Step setup m (.syncTake k)
        ((m.setClient client).setActivity k (some (.sync ⟨follow, afterCall follow result stage⟩)))
  | syncCandidates {m k follow g error}
      (hk : m.activities k = some (.sync ⟨follow, .refused g error⟩)) :
      Step setup m (.syncCandidates k)
        (m.setActivity k (some (.sync ⟨follow, .trying g error m.client.sessionConfig.clientVersion
          (patchSuccessors m.client.sessionConfig.clientVersion clientCandidates)⟩)))
  | syncGiveUp {m k id follow g error previous}
      (hk : m.activities k = some (.sync ⟨follow, .trying g error previous []⟩)) :
      Step setup m (.syncAdopt k id)
        (m.setActivity k (some (.sync ⟨follow, .finishing g (.error error) none⟩)))
  | syncAdopt {m k id follow g error previous candidate candidates client}
      (hk : m.activities k = some (.sync ⟨follow, .trying g error previous (candidate :: candidates)⟩))
      (hc : Client.step setup.lib setup.options m.client
        (.submit (.writer k) (.version g (some candidate)) id) = some client) :
      Step setup m (.syncAdopt k id)
        ((m.setClient client).setActivity k
          (some (.sync ⟨follow, .adopting g error previous candidate candidates⟩)))
  | syncEnd {m k time follow g result followed}
      (hk : m.activities k = some (.sync ⟨follow, .finishing g result followed⟩))
      (hl : m.lock = none) :
      Step setup m (.syncEnd k time)
        { m.setActivity k none with
          state := m.state.synced g followed result m.client.current
            (m.client.queryError false).isNone m.client.sessionConfig time }
  | reloadBegin {m} (hl : m.lock = none) (hphase : m.state.phase ≠ .recovering)
      (hu : m.state.versionUpdating = false) :
      Step setup m .reloadBegin { m.spawn (.reload .begun) with lock := some m.nextActivity }
  | reloadFail {m k error} (hk : m.activities k = some (.reload .begun)) :
      Step setup m (.reloadFail k error) (m.setActivity k (some (.reload (.failed error))))
  | reloadConfig {m k} (hk : m.activities k = some (.reload .begun)) :
      Step setup m (.reloadConfig k)
        (m.setActivity k (some (.reload (.read m.client.sessionConfig))))
  | reloadReplaceFailed {m k provider config error}
      (hk : m.activities k = some (.reload (.read config))) :
      Step setup m (.reloadReplace k provider) (m.setActivity k (some (.reload (.failed error))))
  | reloadReplace {m k provider config client}
      (hk : m.activities k = some (.reload (.read config)))
      (hc : Client.step setup.lib setup.options m.client (.replaceSession config provider) =
        some client) (hnew : client.current ≠ m.client.current) :
      Step setup m (.reloadReplace k provider)
        ((m.setClient client).setActivity k (some (.reload .replaced)))
  | reloadEndFailed {m k error} (hk : m.activities k = some (.reload (.failed error))) :
      Step setup m (.reloadEnd k) { m.setActivity k none with lock := none }
  | reloadEnd {m k} (hk : m.activities k = some (.reload .replaced)) :
      Step setup m (.reloadEnd k)
        { m.setActivity k none with lock := none, state := m.state.reloaded }

variable {setup : Setup I ρ} {m m' : ManagedClient I ρ} {e : Event I}

/-! ### Reading the tasks -/

theorem recovering_eq_some {k : ℕ} {w : Worker} :
    m.recovering k = some w ↔ m.activities k = some (.worker w) ∧ w.result = none := by
  unfold recovering
  split
  · next h =>
    constructor
    · intro hw
      obtain rfl := Option.some.inj hw
      exact ⟨h, rfl⟩
    · rintro ⟨hw, -⟩
      rw [h] at hw
      cases hw
      rfl
  · next h =>
    refine ⟨nofun, ?_⟩
    rintro ⟨hw, hr⟩
    obtain ⟨g, i, c, r⟩ := w
    obtain rfl : r = none := hr
    exact absurd hw (h g i c)

theorem syncing_eq_some {k : ℕ} {s : Sync} :
    m.syncing k = some s ↔ m.activities k = some (.sync s) := by
  unfold syncing
  split
  · next h => simp [h]
  · next h => exact ⟨nofun, fun ho => absurd ho (h s)⟩

theorem reloading_eq_some {k : ℕ} {r : Reload} :
    m.reloading k = some r ↔ m.activities k = some (.reload r) := by
  unfold reloading
  split
  · next h => simp [h]
  · next h => exact ⟨nofun, fun ho => absurd ho (h r)⟩

theorem returnedResult_eq_some {task : Task} {result : Except ClientError Outcome} :
    m.returnedResult task = some result ↔ m.client.ops task = some (.done result) := by
  unfold returnedResult
  split
  · next h => simp [h]
  · next h => exact ⟨nofun, fun ho => absurd ho (h result)⟩

theorem clientStep_eq_some {ce : Client.Event Task} :
    m.clientStep setup ce = some m' ↔
      ∃ client, Client.step setup.lib setup.options m.client ce = some client ∧
        m.setClient client = m' := by
  simp [clientStep, Option.map_eq_some_iff]

/-- A step of the client, and then an update of the task that has made it. -/
theorem clientStep_map_eq_some {ce : Client.Event Task}
    {f : ManagedClient I ρ → ManagedClient I ρ} :
    (m.clientStep setup ce).map f = some m' ↔
      ∃ client, Client.step setup.lib setup.options m.client ce = some client ∧
        f (m.setClient client) = m' := by
  simp [clientStep, Option.map_eq_some_iff]

/-! ### Inversion -/

theorem Step.of_arrive {n : ℕ} {anonymous : Bool} {caller : Caller}
    (h : m.arrive n anonymous caller = some m') :
    m' = m ∨ m.callers n = none ∧ (anonymous = false → m.state.phase.closed = false) ∧
      m' = m.setCaller n (some caller) := by
  unfold arrive at h
  split at h
  · cases h
  · next hn =>
    split_ifs at h with ha hl hc
    · exact .inr ⟨hn, by simp [ha], (Option.some.inj h).symm⟩
    · exact .inl (Option.some.inj h).symm
    · exact .inr ⟨hn, fun _ => by simpa using hc, (Option.some.inj h).symm⟩

section Tasks

variable [DecidableEq ρ]

theorem Step.of_stepCaller (h : m.stepCaller setup e = some m') : Step setup m e m' := by
  cases e <;> simp only [stepCaller] at h
  case execute n g query =>
    split_ifs at h with hg
    rcases Step.of_arrive h with rfl | ⟨hn, hopen, rfl⟩
    · exact .refused rfl
    · exact .execute hn hg hopen
  case call n id =>
    split at h
    · next hn =>
      obtain ⟨client, hc, rfl⟩ := clientStep_map_eq_some.1 h
      exact .call hn hc
    · cases h
  case returned n =>
    split at h
    · next hn hr =>
      obtain ⟨client, hc, rfl⟩ := clientStep_map_eq_some.1 h
      exact .returned hn (returnedResult_eq_some.1 hr) hc
    · cases h
  case dropCaller n =>
    split at h
    · next hn =>
      obtain ⟨client, hc, rfl⟩ := clientStep_map_eq_some.1 h
      exact .dropCaller hn hc
    · cases h
  case queryError n anonymous =>
    rcases Step.of_arrive h with rfl | ⟨hn, hopen, rfl⟩
    · exact .refused rfl
    · exact .queryError hn hopen
  case readError n =>
    split at h
    · next hn =>
      split at h <;> obtain rfl := Option.some.inj h
      · next he => exact .readNoError hn he
      · next he => exact .readError hn he
    · cases h
  case readGeneration n =>
    split at h
    · next hn =>
      obtain rfl := Option.some.inj h
      exact .readGeneration hn
    · cases h
  case check n =>
    split at h
    · next g anonymous result hn =>
      split_ifs at h with hfail <;> obtain rfl := Option.some.inj h
      · exact .checkFailed hn
      · simp only [not_or, Bool.not_eq_true, ne_eq, not_not] at hfail
        obtain ⟨rfl, hg, hs⟩ := hfail
        exact .check hn hg hs
    · cases h
  case observe n =>
    split at h
    · next g result hn hl =>
      obtain rfl := Option.some.inj h
      unfold ManagedClient.observe
      split_ifs with hg
      · exact .observeStale hn hg
      · obtain rfl := not_not.1 hg
        split
        · next ho => exact .observe hn hl (.of_observed ho)
        · next ho => exact .observeSpawn hn hl (.of_observed ho)
    · cases h
  all_goals cases h

omit [DecidableEq ρ] in
theorem Step.of_stepWorker (h : m.stepWorker setup e = some m') : Step setup m e m' := by
  cases e <;> simp only [stepWorker] at h
  case workerCall k request id =>
    split at h
    · next hk =>
      obtain ⟨hk, hr⟩ := recovering_eq_some.1 hk
      split_ifs at h with hq
      obtain ⟨client, hc, rfl⟩ := clientStep_eq_some.1 h
      exact .workerCall hk hr hq hc
    · cases h
  case workerTake k =>
    split at h
    · next hk =>
      obtain ⟨hk, hr⟩ := recovering_eq_some.1 hk
      obtain ⟨client, hc, rfl⟩ := clientStep_eq_some.1 h
      exact .workerTake hk hr hc
    · cases h
  case workerConfig k =>
    split at h
    · next hk =>
      obtain ⟨hk, hr⟩ := recovering_eq_some.1 hk
      obtain rfl := Option.some.inj h
      exact .workerConfig hk hr
    · cases h
  case workerReplace k provider =>
    split at h
    · next hk =>
      obtain ⟨hk, hr⟩ := recovering_eq_some.1 hk
      split at h
      · next hconfig =>
        obtain ⟨client, hc, rfl⟩ := clientStep_map_eq_some.1 h
        exact .workerReplace hk hr hconfig hc
      · cases h
    · cases h
  case workerImport k provider =>
    split at h
    · next hk =>
      obtain ⟨hk, hr⟩ := recovering_eq_some.1 hk
      obtain ⟨client, hc, rfl⟩ := clientStep_eq_some.1 h
      exact .workerImport hk hr hc
    · cases h
  case workerReturn k result =>
    split at h
    · next hk =>
      obtain ⟨hk, hr⟩ := recovering_eq_some.1 hk
      split at h
      · next hop =>
        obtain rfl := Option.some.inj h
        exact .workerReturn hk hr hop
      · split_ifs at h with hi
        obtain ⟨client, hc, rfl⟩ := clientStep_map_eq_some.1 h
        exact .workerInterrupted hk hr hi hc
    · cases h
  case workerEnd k =>
    split at h
    · next hk hl =>
      split at h
      · next hr =>
        obtain rfl := Option.some.inj h
        exact .workerEnd hk hr hl
      · cases h
    · cases h
  all_goals cases h

omit [DecidableEq ρ] in
theorem Step.of_stepSync (h : m.stepSync setup e = some m') : Step setup m e m' := by
  cases e <;> simp only [stepSync] at h
  case syncBegin follow =>
    split at h
    · cases h
    · next hl =>
      split_ifs at h with hu <;> obtain rfl := Option.some.inj h
      · exact .refused rfl
      · simp only [Bool.or_eq_true, not_or, Bool.not_eq_true] at hu
        exact .syncBegin hl hu.1 hu.2
  case syncGeneration k =>
    split at h
    · next hk =>
      obtain rfl := Option.some.inj h
      exact .syncGeneration (syncing_eq_some.1 hk)
    · cases h
  case syncRefresh k id =>
    split at h
    · next hk =>
      obtain ⟨client, hc, rfl⟩ := clientStep_map_eq_some.1 h
      exact .syncRefresh (syncing_eq_some.1 hk) hc
    · cases h
  case syncTake k =>
    split at h
    · next hk hr =>
      split_ifs at h with hw
      obtain ⟨client, hc, rfl⟩ := clientStep_map_eq_some.1 h
      exact .syncTake (syncing_eq_some.1 hk) hw (returnedResult_eq_some.1 hr) hc
    · cases h
  case syncCandidates k =>
    split at h
    · next hk =>
      obtain rfl := Option.some.inj h
      exact .syncCandidates (syncing_eq_some.1 hk)
    · cases h
  case syncAdopt k id =>
    split at h
    · next hk =>
      obtain rfl := Option.some.inj h
      exact .syncGiveUp (syncing_eq_some.1 hk)
    · next hk =>
      obtain ⟨client, hc, rfl⟩ := clientStep_map_eq_some.1 h
      exact .syncAdopt (syncing_eq_some.1 hk) hc
    · cases h
  case syncEnd k time =>
    split at h
    · next hk hl =>
      obtain rfl := Option.some.inj h
      exact .syncEnd (syncing_eq_some.1 hk) hl
    · cases h
  all_goals cases h

omit [DecidableEq ρ] in
theorem Step.of_stepReload (h : m.stepReload setup e = some m') : Step setup m e m' := by
  cases e <;> simp only [stepReload] at h
  case reloadBegin =>
    split at h
    · cases h
    · next hl =>
      split_ifs at h with hu <;> obtain rfl := Option.some.inj h
      · exact .refused rfl
      · simp only [not_or, Bool.not_eq_true] at hu
        exact .reloadBegin hl hu.1 hu.2
  case reloadFail k error =>
    split at h
    · next hk =>
      obtain rfl := Option.some.inj h
      exact .reloadFail (reloading_eq_some.1 hk)
    · cases h
  case reloadConfig k =>
    split at h
    · next hk =>
      obtain rfl := Option.some.inj h
      exact .reloadConfig (reloading_eq_some.1 hk)
    · cases h
  case reloadReplace k provider =>
    split at h
    · next hk =>
      split at h <;> obtain rfl := Option.some.inj h
      · exact .reloadReplaceFailed (reloading_eq_some.1 hk)
      · next hc =>
        refine .reloadReplace (reloading_eq_some.1 hk) (by simp [Client.step, hc]) ?_
        obtain ⟨_, _, -, -, rfl⟩ := Client.replaceSession_ok hc
        simp
    · cases h
  case reloadEnd k =>
    split at h
    · next hk =>
      obtain rfl := Option.some.inj h
      exact .reloadEndFailed (reloading_eq_some.1 hk)
    · next hk =>
      obtain rfl := Option.some.inj h
      exact .reloadEnd (reloading_eq_some.1 hk)
    · cases h
  all_goals cases h

/-- **Inversion of the step function.** -/
theorem Step.of_step (h : m.step setup e = some m') : Step setup m e m' := by
  unfold step at h
  split at h
  · split_ifs at h with hp
    obtain ⟨client, hc, rfl⟩ := clientStep_eq_some.1 h
    exact .client hp hc
  · obtain rfl := Option.some.inj h
    exact .stop
  · obtain rfl := Option.some.inj h
    exact .edit
  · split at h
    · cases h
    · next hl =>
      obtain rfl := Option.some.inj h
      exact .startVersionSync hl
  all_goals
    first
    | exact .of_stepCaller h
    | exact .of_stepWorker h
    | exact .of_stepSync h
    | exact .of_stepReload h

end Tasks

/-! ### The state under the lock and the activities -/

inductive ActivityKind
  | worker
  | sync
  | reload
  deriving DecidableEq, Repr

def Activity.kind : Activity → ActivityKind
  | .worker _ => .worker
  | .sync _ => .sync
  | .reload _ => .reload

/-- What the activity `k` keeps when it goes on from `a` to `a'`. -/
structure GoesOn (m : ManagedClient I ρ) (e : Event I) (m' : ManagedClient I ρ) (k : ℕ)
    (a a' : Activity) : Prop where
  worker : ∀ w, a = .worker w → ∃ w', a' = .worker w' ∧ w'.generation = w.generation ∧
    w'.initial = w.initial ∧
    (w'.result = w.result ∨ ∃ result, e = .workerReturn k result ∧ w'.result = some result)
  sync : ∀ s, a = .sync s → ∃ s', a' = .sync s' ∧
    (s'.stage.generation = s.stage.generation ∨ s.stage.generation = none ∧
      s'.stage.generation = some m.client.current ∧ m'.client = m.client)
  replaced : a' = .reload .replaced → m'.client.current ≠ m.client.current

theorem GoesOn.of_worker {k : ℕ} {w w' : Worker} (hg : w'.generation = w.generation)
    (hi : w'.initial = w.initial)
    (hr : w'.result = w.result ∨ ∃ result, e = .workerReturn k result ∧ w'.result = some result) :
    GoesOn m e m' k (.worker w) (.worker w') := by
  refine ⟨fun v hv => ?_, fun s h => (by cases h), fun h => (by cases h)⟩
  cases hv
  exact ⟨w', rfl, hg, hi, hr⟩

theorem GoesOn.of_sync {k : ℕ} {s s' : Sync}
    (hs : s'.stage.generation = s.stage.generation ∨ s.stage.generation = none ∧
      s'.stage.generation = some m.client.current ∧ m'.client = m.client) :
    GoesOn m e m' k (.sync s) (.sync s') := by
  refine ⟨fun w h => (by cases h), fun v hv => ?_, fun h => (by cases h)⟩
  cases hv
  exact ⟨s', rfl, hs⟩

theorem GoesOn.of_reload {k : ℕ} {r r' : Reload}
    (hr : r' = .replaced → m'.client.current ≠ m.client.current) :
    GoesOn m e m' k (.reload r) (.reload r') := by
  refine ⟨fun w h => (by cases h), fun s h => (by cases h), fun h => ?_⟩
  cases h
  exact hr rfl

/-- The generation of a sync does not depend on the results of its operations. -/
theorem generation_afterCall (follow : Bool) (result : Except ClientError Outcome)
    (stage : SyncStage) : (afterCall follow result stage).generation = stage.generation := by
  cases stage with
  | refreshing | adopting =>
    cases result with
    | ok => rfl
    | error =>
      simp only [afterCall]
      split_ifs <;> rfl
  | _ => rfl

/-- What an event does to the state under the lock, to the lock and to the activities. -/
inductive Effect (setup : Setup I ρ) (m : ManagedClient I ρ) (e : Event I)
    (m' : ManagedClient I ρ) : Prop
  | quiet (hs : m'.state = m.state) (ha : m'.activities = m.activities)
      (hn : m'.nextActivity = m.nextActivity) (hl : m'.lock = m.lock)
  | status {status} (hfree : m.lock = none)
      (hs : m'.state = { m.state with versionSync := status })
      (hc : m'.client = m.client) (ha : m'.activities = m.activities)
      (hn : m'.nextActivity = m.nextActivity) (hl : m'.lock = m.lock)
  | noted {phase error} (hfree : m.lock = none) (hopen : m.state.phase.closed = false)
      (hphase : phase.closed = false)
      (hs : m'.state = { m.state with phase := phase, lastError := error })
      (hc : m'.client = m.client) (ha : m'.activities = m.activities)
      (hn : m'.nextActivity = m.nextActivity) (hl : m'.lock = m.lock)
  | spawned {n result state w} (he : e = .observe n)
      (hcaller : m.callers n = some (.locking m.client.current result)) (hfree : m.lock = none)
      (ho : State.Observes setup m.state m.input m.client.now m.client.current result state
        (some w))
      (hs : m'.state = state) (hc : m'.client = m.client)
      (ha : m'.activities = Function.update m.activities m.nextActivity (some (.worker w)))
      (hn : m'.nextActivity = m.nextActivity + 1) (hl : m'.lock = m.lock)
  | wentOn {k a a'} (he : e.activity = some k) (hk : m.activities k = some a)
      (hs : m'.state = m.state) (ha : m'.activities = Function.update m.activities k (some a'))
      (hkind : a'.kind = a.kind) (hn : m'.nextActivity = m.nextActivity) (hl : m'.lock = m.lock)
      (hgo : GoesOn m e m' k a a')
  | workerEnded {k w result} (he : e = .workerEnd k) (hk : m.activities k = some (.worker w))
      (hr : w.result = some result) (hfree : m.lock = none)
      (hs : m'.state = m.state.ended m.client.current w result) (hc : m'.client = m.client)
      (ha : m'.activities = Function.update m.activities k none)
      (hn : m'.nextActivity = m.nextActivity) (hl : m'.lock = m.lock)
  | syncBegan {follow} (hfree : m.lock = none) (hu : m.state.versionUpdating = false)
      (hopen : m.state.phase.closed = false)
      (hs : m'.state = { m.state with versionUpdating := true }) (hc : m'.client = m.client)
      (ha : m'.activities =
        Function.update m.activities m.nextActivity (some (.sync ⟨follow, .begun⟩)))
      (hn : m'.nextActivity = m.nextActivity + 1) (hl : m'.lock = m.lock)
  | syncEnded {k time follow g result followed} (he : e = .syncEnd k time)
      (hk : m.activities k = some (.sync ⟨follow, .finishing g result followed⟩))
      (hfree : m.lock = none)
      (hs : m'.state = m.state.synced g followed result m.client.current
        (m.client.queryError false).isNone m.client.sessionConfig time)
      (hc : m'.client = m.client) (ha : m'.activities = Function.update m.activities k none)
      (hn : m'.nextActivity = m.nextActivity) (hl : m'.lock = m.lock)
  | reloadBegan (hfree : m.lock = none) (hphase : m.state.phase ≠ .recovering)
      (hu : m.state.versionUpdating = false) (hs : m'.state = m.state) (hc : m'.client = m.client)
      (ha : m'.activities = Function.update m.activities m.nextActivity (some (.reload .begun)))
      (hn : m'.nextActivity = m.nextActivity + 1) (hl : m'.lock = some m.nextActivity)
  | reloadFailed {k error} (he : e = .reloadEnd k)
      (hk : m.activities k = some (.reload (.failed error))) (hs : m'.state = m.state)
      (hc : m'.client = m.client) (ha : m'.activities = Function.update m.activities k none)
      (hn : m'.nextActivity = m.nextActivity) (hl : m'.lock = none)
  | reloaded {k} (he : e = .reloadEnd k) (hk : m.activities k = some (.reload .replaced))
      (hs : m'.state = m.state.reloaded) (hc : m'.client = m.client)
      (ha : m'.activities = Function.update m.activities k none)
      (hn : m'.nextActivity = m.nextActivity) (hl : m'.lock = none)

theorem Step.effect (h : Step setup m e m') : Effect setup m e m' := by
  cases h with
  | startVersionSync hl => exact .status hl rfl rfl rfl rfl rfl
  | observe _ hl ho =>
    cases ho with
    | skipped => exact .quiet rfl rfl rfl rfl
    | noted hopen hphase => exact .noted hl hopen hphase rfl rfl rfl rfl rfl
  | observeSpawn hn hl ho => exact .spawned rfl hn hl ho rfl rfl rfl rfl rfl
  | workerConfig hk | workerReplace hk =>
    exact .wentOn rfl hk rfl rfl rfl rfl rfl (.of_worker rfl rfl (.inl rfl))
  | workerReturn hk | workerInterrupted hk =>
    exact .wentOn rfl hk rfl rfl rfl rfl rfl (.of_worker rfl rfl (.inr ⟨_, rfl, rfl⟩))
  | syncGeneration hk =>
    exact .wentOn rfl hk rfl rfl rfl rfl rfl (.of_sync (.inr ⟨rfl, rfl, rfl⟩))
  | syncTake hk =>
    exact .wentOn rfl hk rfl rfl rfl rfl rfl (.of_sync (.inl (generation_afterCall _ _ _)))
  | syncRefresh hk | syncCandidates hk | syncGiveUp hk | syncAdopt hk =>
    exact .wentOn rfl hk rfl rfl rfl rfl rfl (.of_sync (.inl rfl))
  | reloadFail hk | reloadConfig hk | reloadReplaceFailed hk =>
    exact .wentOn rfl hk rfl rfl rfl rfl rfl (.of_reload fun h => (by cases h))
  | reloadReplace hk _ hnew => exact .wentOn rfl hk rfl rfl rfl rfl rfl (.of_reload fun _ => hnew)
  | workerEnd hk hr hl => exact .workerEnded rfl hk hr hl rfl rfl rfl rfl rfl
  | syncBegin hl hu hopen => exact .syncBegan hl hu hopen rfl rfl rfl rfl rfl
  | syncEnd hk hl => exact .syncEnded rfl hk hl rfl rfl rfl rfl rfl
  | reloadBegin hl hphase hu => exact .reloadBegan hl hphase hu rfl rfl rfl rfl rfl
  | reloadEndFailed hk => exact .reloadFailed rfl hk rfl rfl rfl rfl rfl
  | reloadEnd hk => exact .reloaded rfl hk rfl rfl rfl rfl rfl
  | _ => exact .quiet rfl rfl rfl rfl

/-! ### The client -/

/-- On whose behalf an event of the managed client makes the event `ce` of the client. -/
inductive OnBehalf (m : ManagedClient I ρ) : Event I → Client.Event Task → Prop
  | progress {ce} (hp : progresses ce = true) : OnBehalf m (.client ce) ce
  | callerCall {n id g query} (hn : m.callers n = some (.admitted g query)) :
      OnBehalf m (.call n id) (.submit (.caller n) (.execute g query) id)
  | callerTake {n} : OnBehalf m (.returned n) (.take (.caller n))
  | callerDrop {n} : OnBehalf m (.dropCaller n) (.drop (.caller n))
  | workerCall {k request id w} (hk : m.activities k = some (.worker w)) (hr : w.result = none)
      (hq : recoveryCall w.generation request = true) :
      OnBehalf m (.workerCall k request id) (.submit (.writer k) request id)
  | workerTake {k w} (hk : m.activities k = some (.worker w)) :
      OnBehalf m (.workerTake k) (.take (.writer k))
  | workerDrop {k result w} (hk : m.activities k = some (.worker w)) :
      OnBehalf m (.workerReturn k result) (.drop (.writer k))
  | workerReplace {k provider w config} (hk : m.activities k = some (.worker w))
      (hconfig : w.config = some config) :
      OnBehalf m (.workerReplace k provider) (.replaceSession config (some provider))
  | workerImport {k provider w} (hk : m.activities k = some (.worker w)) :
      OnBehalf m (.workerImport k provider) (.importCredentials w.generation provider)
  | syncRefresh {k id follow g} (hk : m.activities k = some (.sync ⟨follow, .captured g⟩)) :
      OnBehalf m (.syncRefresh k id) (.submit (.writer k) (.version g none) id)
  | syncTake {k follow stage result} (hk : m.activities k = some (.sync ⟨follow, stage⟩))
      (hr : m.client.ops (.writer k) = some (.done result)) :
      OnBehalf m (.syncTake k) (.take (.writer k))
  | syncAdopt {k id follow g error previous candidate candidates}
      (hk : m.activities k =
        some (.sync ⟨follow, .trying g error previous (candidate :: candidates)⟩)) :
      OnBehalf m (.syncAdopt k id) (.submit (.writer k) (.version g (some candidate)) id)
  | reloadReplace {k provider config} (hk : m.activities k = some (.reload (.read config))) :
      OnBehalf m (.reloadReplace k provider) (.replaceSession config provider)

/-- What an event does to the client. -/
inductive ClientEffect (setup : Setup I ρ) (m : ManagedClient I ρ) (e : Event I)
    (m' : ManagedClient I ρ) : Prop
  | same (hc : m'.client = m.client)
  | step {ce} (hb : OnBehalf m e ce)
      (hc : Client.step setup.lib setup.options m.client ce = some m'.client)

theorem Step.clientEffect (h : Step setup m e m') : ClientEffect setup m e m' := by
  cases h with
  | client hp hc => exact .step (.progress hp) hc
  | call hn hc => exact .step (.callerCall hn) hc
  | returned _ _ hc => exact .step .callerTake hc
  | dropCaller _ hc => exact .step .callerDrop hc
  | workerCall hk hr hq hc => exact .step (.workerCall hk hr hq) hc
  | workerTake hk _ hc => exact .step (.workerTake hk) hc
  | workerReplace hk _ hconfig hc => exact .step (.workerReplace hk hconfig) hc
  | workerImport hk _ hc => exact .step (.workerImport hk) hc
  | workerInterrupted hk _ _ hc => exact .step (.workerDrop hk) hc
  | syncRefresh hk hc => exact .step (.syncRefresh hk) hc
  | syncTake hk _ hr hc => exact .step (.syncTake hk hr) hc
  | syncAdopt hk hc => exact .step (.syncAdopt hk) hc
  | reloadReplace hk hc => exact .step (.reloadReplace hk) hc
  | _ => exact .same rfl

theorem current_le_of_step [DecidableEq ρ] (h : m.step setup e = some m') :
    m.client.current ≤ m'.client.current := by
  cases (Step.of_step h).clientEffect with
  | same hc => rw [hc]
  | step _ hc => exact Client.current_le_of_step hc

end MoenotesApi.ManagedClient
