import MoenotesApi.Managed.Ownership

/-!
# Writers exclude each other, over whole runs

What the exclusion is for: `AccountDirectoryClient::recover` and `Runtime::reload` read the
configuration of the session and then replace the session without looking at its generation.

* `ReadsCurrent`: a configuration that has been read stays current until it is used;
* `Reloading`, `failed_reload`: a reload that fails leaves everything as it was;
* `writers_exclusive`: the exclusion and its consequences, in every run.
-/

namespace MoenotesApi.ManagedClient

open Runs

variable {I ρ : Type} {setup : Setup I ρ} {m m' : ManagedClient I ρ} {e : Event I}

/-! ### Configurations that have been read -/

/-- The configuration that an activity has read and not used yet. -/
def Activity.read : Activity → Option SessionConfig
  | .worker w => w.config
  | .reload (.read config) => some config
  | _ => none

/-- The activity `k` has read the configuration `config`, and has not replaced the session yet. -/
def HasRead (m : ManagedClient I ρ) (k : ℕ) (config : SessionConfig) : Prop :=
  ∃ a, m.activities k = some a ∧ a.read = some config

/-- Every configuration that has been read is still that of the session. -/
def ReadsCurrent (m : ManagedClient I ρ) : Prop :=
  ∀ k config, HasRead m k config → config = m.client.sessionConfig

/-- What is read after the activity `k` has changed. -/
theorem hasRead_of_update {k j : ℕ} {activity : Option Activity} {config : SessionConfig}
    (ha : m'.activities = Function.update m.activities k activity) (hread : HasRead m' j config) :
    (j = k ∧ ∃ a, activity = some a ∧ a.read = some config) ∨ (j ≠ k ∧ HasRead m j config) := by
  obtain ⟨a, hj, hr⟩ := hread
  by_cases hjk : j = k
  · subst hjk
    rw [ha, Function.update_self] at hj
    exact .inl ⟨rfl, a, hj, hr⟩
  · rw [ha, Function.update_of_ne hjk] at hj
    exact .inr ⟨hjk, a, hj, hr⟩

/-- The event uses up the configuration that the activity `k` has read. -/
def Replaces (e : Event I) (k : ℕ) : Prop :=
  (∃ provider, e = .workerReplace k provider) ∨ ∃ provider, e = .reloadReplace k provider

/-- A configuration that has been read was read before the event, or by the event. -/
theorem hasRead_of_step (hstep : Step setup m e m') {k : ℕ} {config : SessionConfig}
    (hread : HasRead m' k config) :
    (HasRead m k config ∧ ¬ Replaces e k) ∨
      (config = m.client.sessionConfig ∧ m'.client = m.client) := by
  cases hstep with
  | observeSpawn _ _ ho =>
    rcases hasRead_of_update rfl hread with ⟨-, a, ha, hr⟩ | ⟨-, hread⟩
    · cases ha
      rw [ho.eq_spawned] at hr
      cases hr
    · exact .inl ⟨hread, by simp [Replaces]⟩
  | workerConfig hk =>
    rcases hasRead_of_update rfl hread with ⟨-, a, ha, hr⟩ | ⟨-, hread⟩
    · cases ha
      exact .inr ⟨(Option.some.inj hr).symm, rfl⟩
    · exact .inl ⟨hread, by simp [Replaces]⟩
  | reloadConfig hk =>
    rcases hasRead_of_update rfl hread with ⟨-, a, ha, hr⟩ | ⟨-, hread⟩
    · cases ha
      exact .inr ⟨(Option.some.inj hr).symm, rfl⟩
    · exact .inl ⟨hread, by simp [Replaces]⟩
  | workerReturn hk | workerInterrupted hk =>
    rcases hasRead_of_update rfl hread with ⟨rfl, a, ha, hr⟩ | ⟨-, hread⟩
    · cases ha
      exact .inl ⟨⟨_, hk, hr⟩, by simp [Replaces]⟩
    · exact .inl ⟨hread, by simp [Replaces]⟩
  | workerReplace | reloadReplace | reloadReplaceFailed =>
    rcases hasRead_of_update rfl hread with ⟨-, a, ha, hr⟩ | ⟨hjk, hread⟩
    · cases ha
      cases hr
    · exact .inl ⟨hread, by simp [Replaces, Ne.symm hjk]⟩
  | workerEnd | syncEnd | reloadEndFailed | reloadEnd =>
    rcases hasRead_of_update rfl hread with ⟨-, a, ha, hr⟩ | ⟨-, hread⟩
    · cases ha
    · exact .inl ⟨hread, by simp [Replaces]⟩
  | syncBegin | syncGeneration | syncRefresh | syncTake | syncCandidates | syncGiveUp | syncAdopt
  | reloadBegin | reloadFail =>
    rcases hasRead_of_update rfl hread with ⟨-, a, ha, hr⟩ | ⟨-, hread⟩
    · cases ha
      cases hr
    · exact .inl ⟨hread, by simp [Replaces]⟩
  | refused he => exact .inl ⟨hread, by rintro (⟨_, rfl⟩ | ⟨_, rfl⟩) <;> cases he⟩
  | _ => exact .inl ⟨hread, by simp [Replaces]⟩

/-- The configuration of the session changes only by a replacement or a version discovery. -/
theorem config_of_clientStep {client client' : Client Task} {ce : Client.Event Task}
    (hc : Client.step setup.lib setup.options client ce = some client') :
    client'.sessionConfig = client.sessionConfig ∨
    (∃ config provider, ce = .replaceSession config provider) ∨
    ∃ task files op presented, ce = .finish task files ∧ client.ops task = some (.running op) ∧
      op.call = .version presented := by
  by_cases hne : client'.current = client.current
  · left
    unfold Client.sessionConfig Client.session
    rw [hne]
    exact (Client.identity_of_step hc le_rfl).1
  · cases (Client.install_cases hc hne).1 with
    | @finish task op _ files _ _ he hi _ hf hsession =>
      cases hf with
      | login | register => left; unfold Client.sessionConfig; rw [hsession]; rfl
      | version hcall => exact .inr (.inr ⟨task, files, op, _, he, hi, hcall⟩)
    | imported _ hsession => left; unfold Client.sessionConfig; rw [hsession]; rfl
    | replaced he => exact .inr (.inl ⟨_, _, he⟩)

/-- A configuration that an activity has read, and does not use up now, stays that of the session. -/
theorem config_kept (hs : Sound m) (hstep : Step setup m e m') {k : ℕ} {config : SessionConfig}
    (hread : HasRead m k config) (he : ¬ Replaces e k) :
    m'.client.sessionConfig = m.client.sessionConfig := by
  obtain ⟨a, hk, hr⟩ := hread
  -- only the activity `k` is running
  have only : ∀ j, m.activities j ≠ none → j = k := fun j hj =>
    hs.exclusive.unique j k hj (by simp [hk])
  cases hstep.clientEffect with
  | same hc => rw [hc]
  | step hb hc =>
    rcases config_of_clientStep hc with hsame | ⟨_, _, rfl⟩ | ⟨task, _, op, presented, rfl, hi, hcall⟩
    · exact hsame
    · cases hb with
      | progress hp => cases hp
      | @workerReplace j _ _ _ hj =>
        obtain rfl := only j (by simp [hj])
        exact absurd (.inl ⟨_, rfl⟩) he
      | @reloadReplace j _ _ hj =>
        obtain rfl := only j (by simp [hj])
        exact absurd (.inr ⟨_, rfl⟩) he
    · cases task with
      | caller n =>
        have := hs.owned.caller n op hi
        rw [hcall] at this
        cases this
      | writer j =>
        cases hs.owned.writer j op hi with
        | worker _ _ _ hlogin => rw [hcall] at hlogin; simp at hlogin
        | sync hj =>
          obtain rfl := only j (by simp [hj])
          rw [hk] at hj
          cases hj
          cases hr

theorem ReadsCurrent.step [DecidableEq ρ] (h : ReadsCurrent m) (hs : Sound m)
    (hstep : m.step setup e = some m') : ReadsCurrent m' := by
  intro k config hread
  rcases hasRead_of_step (Step.of_step hstep) hread with ⟨hbefore, he⟩ | ⟨hconfig, hc⟩
  · rw [config_kept hs (Step.of_step hstep) hbefore he]
    exact h k config hbefore
  · rw [hc, hconfig]

/-! ### Failed reloads -/

/-- The reload `k` is executing; it has begun in the state `s` and under the generation `g`. -/
structure Reloading (k : ℕ) (s : State ρ) (g : ℕ) (m : ManagedClient I ρ) : Prop where
  lock : m.lock = some k
  issued : k < m.nextActivity
  state : m.state = s
  session : m.activities k = some (.reload .replaced) ∨
    m.client.current = g ∧ ∃ r, m.activities k = some (.reload r)

/-- While a reload is running, only the reload replaces the session. -/
theorem current_of_reload (hs : Sound m) (hstep : Step setup m e m') {k : ℕ} {r : Reload}
    (hk : m.activities k = some (.reload r)) :
    m'.client.current = m.client.current ∨ ∃ provider, e = .reloadReplace k provider := by
  by_contra hno
  rw [not_or] at hno
  -- the activity that replaces the session is the reload
  have same : ∀ {j : ℕ} {a : Activity}, m.activities j = some a → a = .reload r ∧ j = k := by
    intro j a hj
    obtain rfl := hs.exclusive.unique j k (by simp [hj]) (by simp [hk])
    rw [hk] at hj
    exact ⟨(Option.some.inj hj).symm, rfl⟩
  cases (installs_cases hs.owned hstep hno.1).1 with
  | login _ hj | version _ _ _ hj | imported _ hj | replaced _ hj => cases (same hj).1
  | reloaded he hj =>
    obtain ⟨-, rfl⟩ := same hj
    exact hno.2 ⟨_, he⟩

/-- While a reload holds the state lock, only the reload itself does anything to the state or to the
session. -/
theorem Reloading.step [DecidableEq ρ] {k g : ℕ} {s : State ρ} (h : Reloading k s g m)
    (hs : Sound m) (hstep : m.step setup e = some m') (he : e ≠ .reloadEnd k) :
    Reloading k s g m' := by
  obtain ⟨r, hk⟩ := (hs.exclusive.locked k).1 h.lock
  have hcur := current_of_reload hs (Step.of_step hstep) hk
  have only : ∀ {j : ℕ} {a : Activity}, m.activities j = some a → a = .reload r ∧ j = k := by
    intro j a hj
    obtain rfl := hs.exclusive.unique j k (by simp [hj]) (by simp [hk])
    rw [hk] at hj
    exact ⟨(Option.some.inj hj).symm, rfl⟩
  -- before the replacement the session is the one of the beginning
  have before : r ≠ .replaced → m.client.current = g := by
    intro hr
    rcases h.session with hrep | ⟨hg, -⟩
    · rw [hk] at hrep
      cases hrep
      exact absurd rfl hr
    · exact hg
  cases Step.of_step hstep with
  | client _ hc | call _ hc | returned _ _ hc | dropCaller _ hc =>
    refine ⟨h.lock, h.issued, h.state, h.session.imp_right fun hg => ⟨?_, hg.2⟩⟩
    exact (hcur.resolve_right (by simp)).trans hg.1
  | startVersionSync hl | observe _ hl | observeSpawn _ hl | workerEnd _ _ hl | syncBegin hl
  | syncEnd _ hl | reloadBegin hl =>
    rw [h.lock] at hl
    cases hl
  | workerCall hj | workerTake hj | workerConfig hj | workerReplace hj | workerImport hj
  | workerReturn hj | workerInterrupted hj | syncGeneration hj | syncRefresh hj | syncTake hj
  | syncCandidates hj | syncGiveUp hj | syncAdopt hj => cases (only hj).1
  | reloadFail hj | reloadConfig hj | reloadReplaceFailed hj =>
    obtain ⟨hr, rfl⟩ := only hj
    cases hr
    exact ⟨h.lock, h.issued, h.state, .inr ⟨before (by simp), _, setActivity_self _ _ _⟩⟩
  | reloadReplace hj =>
    obtain ⟨-, rfl⟩ := only hj
    exact ⟨h.lock, h.issued, h.state, .inl (setActivity_self _ _ _)⟩
  | reloadEndFailed hj | reloadEnd hj =>
    obtain ⟨-, rfl⟩ := only hj
    exact absurd rfl he
  | _ => exact ⟨h.lock, h.issued, h.state, h.session⟩

/-- A reload that has begun is executing at the end of a run, or it is over. -/
theorem reloading_of_run [DecidableEq ρ] {k g : ℕ} {s : State ρ}
    {ts : List (Transition (ManagedClient I ρ) (Event I))} (hrun : Run (step setup) m ts m')
    (hs : Sound m) (h : Reloading k s g m) : Reloading k s g m' ∨ Over k m' := by
  induction hrun with
  | nil => exact .inl h
  | @snoc ts d e d' hrun hstep ih =>
    rcases ih with h | h
    · by_cases he : e = .reloadEnd k
      · subst he
        right
        cases Step.of_step hstep with
        | refused he => cases he
        | reloadEndFailed | reloadEnd => exact ⟨by simp, h.issued⟩
      · exact .inl (h.step (sound_of_run hrun hs) hstep he)
    · exact .inr (h.step hstep)

/-- A reload that fails leaves the state and the session as they were. -/
theorem failed_reload [DecidableEq ρ] {k : ℕ} {error : ClientError}
    {b t : Transition (ManagedClient I ρ) (Event I)}
    {between : List (Transition (ManagedClient I ρ) (Event I))}
    (hs : Sound b.before) (hb : b.before.step setup b.event = some b.after)
    (hbegin : b.event = .reloadBegin) (hfree : b.before.lock = none) (hk : b.after.lock = some k)
    (hrun : Run (step setup) b.after between t.before)
    (ht : t.before.step setup t.event = some t.after) (hend : t.event = .reloadEnd k)
    (hfailed : t.before.activities k = some (.reload (.failed error))) :
    t.after.state = b.before.state ∧ t.after.client.current = b.before.client.current ∧
      t.after.client.session.config = b.before.client.session.config ∧
      t.after.client.session.credentials = b.before.client.session.credentials := by
  obtain ⟨m, e, m'⟩ := b
  obtain ⟨d, f, d'⟩ := t
  dsimp only at *
  subst hbegin hend
  have hstart : Reloading k m.state m.client.current m' ∧ m'.client = m.client := by
    cases Step.of_step hb with
    | refused => rw [hfree] at hk; cases hk
    | reloadBegin =>
      obtain rfl := Option.some.inj hk
      exact ⟨⟨rfl, Nat.lt_succ_self _, rfl, .inr ⟨rfl, .begun, by simp⟩⟩, rfl⟩
  obtain ⟨hstart, hclient⟩ := hstart
  rcases reloading_of_run hrun (hs.step hb) hstart with h | h
  · have hcur : d.client.current = m.client.current := by
      rcases h.session with hr | ⟨hg, -⟩
      · rw [hfailed] at hr
        cases hr
      · exact hg
    have hid := identity_of_run hrun (g := m.client.current) (by rw [hclient])
    cases Step.of_step ht with
    | refused he => cases he
    | reloadEndFailed =>
      refine ⟨h.state, hcur, ?_, ?_⟩
      · simpa [Client.session, hcur, hclient] using hid.1
      · simpa [Client.session, hcur, hclient] using hid.2
    | reloadEnd hr =>
      rw [hfailed] at hr
      cases hr
  · rw [h.1] at hfailed
    cases hfailed

/-- **Writers exclude each other.**  In every run of a managed client: at most one worker, version
sync or executing reload is there; the phase is `Recovering` exactly while a worker is; only the one
that is there replaces the session, so a configuration that it has read is current until it is used;
and a reload that fails leaves the state and the session as they were. -/
theorem writers_exclusive [DecidableEq ρ] {config : SessionConfig}
    {provider : Option StaticCredentials} {transport : Transport} {now : ℕ} {client : Client Task}
    {input : I} {ts : List (Transition (ManagedClient I ρ) (Event I))}
    (hclient : Client.withTransport setup.lib setup.options config provider transport now =
      .ok client)
    (hrun : Run (step setup) (initial client input) ts m) :
    (∀ j k, m.activities j ≠ none → m.activities k ≠ none → j = k) ∧
    (m.state.phase = .recovering ↔ ∃ k w, m.activities k = some (.worker w)) ∧
    (∀ t ∈ ts, t.after.client.current ≠ t.before.client.current → ∀ k,
      t.before.activities k ≠ none → t.event.activity = some k) ∧
    (∀ k config, HasRead m k config → config = m.client.sessionConfig) ∧
    (∀ before b between t after k error, ts = before ++ b :: between ++ t :: after →
      b.event = .reloadBegin → b.before.lock = none → b.after.lock = some k →
      t.event = .reloadEnd k → t.before.activities k = some (.reload (.failed error)) →
        t.after.state = b.before.state ∧ t.after.client.current = b.before.client.current ∧
        t.after.client.session.config = b.before.client.session.config ∧
        t.after.client.session.credentials = b.before.client.session.credentials) := by
  have hstart : Sound (initial client input : ManagedClient I ρ) := by
    obtain ⟨session, -, rfl⟩ := Client.withTransport_ok hclient
    exact sound_initial (fun _ => rfl) input
  have hm := sound_of_run hrun hstart
  refine ⟨hm.exclusive.unique, ?_, ?_, ?_, ?_⟩
  · rw [hm.exclusive.recovering]
    constructor
    · rintro ⟨k, a, hk, ha⟩
      cases a with
      | worker w => exact ⟨k, w, hk⟩
      | sync | reload => cases ha
    · rintro ⟨k, w, hk⟩
      exact ⟨k, _, hk, rfl⟩
  · intro t ht hnew k hk
    obtain ⟨before, after, rfl⟩ := List.append_of_mem ht
    obtain ⟨h1, hstep, -⟩ := hrun.around
    have hb := sound_of_run h1 hstart
    obtain ⟨j, he, hj⟩ := (installs_cases hb.owned (Step.of_step hstep) hnew).1.activity
    rw [he, hb.exclusive.unique j k hj hk]
  · have hread : Sound m ∧ ReadsCurrent m :=
      hrun.invariant (I := fun m => Sound m ∧ ReadsCurrent m)
        (fun _ _ _ h hstep => ⟨h.1.step hstep, h.2.step h.1 hstep⟩)
        ⟨hstart, fun k config ⟨a, hk, _⟩ => by simp [initial] at hk⟩
    exact hread.2
  · rintro before b between t after k error rfl hbegin hfree hk hend hfailed
    obtain ⟨h1, ht, -⟩ := hrun.around
    obtain ⟨h0, hb, hbetween⟩ := h1.around
    exact failed_reload (sound_of_run h0 hstart) hb hbegin hfree hk hbetween ht hend hfailed

/-- A reload with the credentials of another region. -/
def failedReloadEvents : List (Event ℕ) :=
  [.reloadBegin, .reloadConfig 0, .reloadReplace 0 (some { sampleProvider with region := "tw" }),
    .reloadEnd 0]

def failedReload : List (Transition (ManagedClient ℕ ℕ) (Event ℕ)) :=
  transitions sampleStep sampleManaged failedReloadEvents

theorem writers_exclusive_failedReload :
    (failedReload.get ⟨3, by decide⟩).after.state = sampleManaged.state ∧
      (failedReload.get ⟨3, by decide⟩).after.client.current = sampleManaged.client.current := by
  have hclient : Client.withTransport sampleLibraries Client.sampleOptions sampleConfig none
      sampleTransport 0 = .ok sampleManaged.client := rfl
  have hrun : Run (step sampleSetup) (initial sampleManaged.client 0) failedReload _ :=
    run_get failedReloadEvents rfl
  have h := (writers_exclusive hclient hrun).2.2.2.2 []
    (failedReload.get ⟨0, by decide⟩) [failedReload.get ⟨1, by decide⟩, failedReload.get ⟨2, by decide⟩]
    (failedReload.get ⟨3, by decide⟩) [] 0 _ rfl rfl rfl rfl rfl rfl
  exact ⟨h.1, h.2.1⟩

end MoenotesApi.ManagedClient
