import MoenotesApi.Managed.Lineage

/-!
# Unpersisted sessions are quarantined

A worker that has replaced the session and then fails leaves a session in the client that was never
saved.  While the worker runs the phase is `Recovering`, and after it the phase is
`PersistenceFailed`: no protected query is admitted, no version sync begins, and only a reload, which
replaces the session, opens the phase again.

* `Unpersisted`: the worker is still there and has not returned `Ok`;
* `Quarantined`: the invariant of such a session, from its installation on;
* `unpersisted_quarantined`: the result, over whole runs.
-/

namespace MoenotesApi.ManagedClient

open Runs

variable {I ρ : Type} {setup : Setup I ρ} {m m' : ManagedClient I ρ} {e : Event I} {k q : ℕ}
variable {ts us : List (Transition (ManagedClient I ρ) (Event I))}

/-- The worker `k` replaces the session. -/
def WorkerInstall (k : ℕ) (t : Transition (ManagedClient I ρ) (Event I)) : Prop :=
  t.event.activity = some k ∧ (∃ w, t.before.activities k = some (.worker w)) ∧
    t.after.client.current ≠ t.before.client.current

/-- The worker `k` was started under a generation before `q` and has not returned `Ok`. -/
def Unpersisted (k q : ℕ) (m : ManagedClient I ρ) : Prop :=
  ∃ w, m.activities k = some (.worker w) ∧ w.generation < q ∧ w.result ≠ some (.ok ())

/-- Such a worker goes on, or it ends and leaves the phase `PersistenceFailed`. -/
theorem Unpersisted.step (h : Unpersisted k q m) (hs : Sound m) (hstep : Step setup m e m')
    (he : e ≠ .workerReturn k (.ok ())) :
    Unpersisted k q m' ∨ e = .workerEnd k ∧ (∀ j, m'.activities j = none) ∧
      (q ≤ m.client.current → m'.state.phase = .persistenceFailed) := by
  obtain ⟨w, hk, hg, hr⟩ := h
  -- the worker is the only activity
  have only : ∀ {j : ℕ} {a : Activity}, m.activities j = some a → a = .worker w ∧ j = k := by
    intro j a hj
    obtain rfl := hs.exclusive.unique j k (by simp [hj]) (by simp [hk])
    rw [hk] at hj
    exact ⟨(Option.some.inj hj).symm, rfl⟩
  have fresh : k ≠ m.nextActivity := by
    rintro rfl
    rw [hs.exclusive.fresh _ le_rfl] at hk
    cases hk
  cases hstep.effect with
  | quiet _ ha | status _ _ _ ha | noted _ _ _ _ _ ha => exact .inl ⟨w, ha ▸ hk, hg, hr⟩
  | spawned _ _ _ _ _ _ ha | syncBegan _ _ _ _ _ ha | reloadBegan _ _ _ _ _ ha =>
    exact .inl ⟨w, by rw [ha, Function.update_of_ne fresh, hk], hg, hr⟩
  | wentOn _ hj _ ha _ _ _ hgo =>
    obtain ⟨rfl, rfl⟩ := only hj
    obtain ⟨w', rfl, hg', -, hr'⟩ := hgo.worker w rfl
    refine .inl ⟨w', by rw [ha, Function.update_self], hg' ▸ hg, ?_⟩
    rcases hr' with hr' | ⟨result, rfl, hr'⟩
    · rw [hr']
      exact hr
    · rw [hr']
      rintro ⟨⟩
      exact he rfl
  | @workerEnded _ _ result he' hj hr' _ hs' _ ha =>
    obtain ⟨hw, rfl⟩ := only hj
    cases hw
    refine .inr ⟨he', none_of_ended hs.exclusive hj ha, fun hq => ?_⟩
    cases result with
    | ok => exact absurd hr' hr
    | error error =>
      rw [hs']
      exact State.ended_persistenceFailed _ _ _ (by omega) _
  | syncEnded _ hj | reloadFailed _ hj | reloaded _ hj => cases (only hj).1

theorem activity_of_workerEnd (hstep : Step setup m (.workerEnd k) m') :
    m.activities k ≠ none ∧ m'.activities k = none := by
  cases hstep with
  | refused he => cases he
  | workerEnd hk => exact ⟨by simp [hk], by simp⟩

/-- The phase `PersistenceFailed` lasts until a reload succeeds. -/
theorem persistenceFailed_of_step (hs : Sound m) (hstep : Step setup m e m')
    (hphase : m.state.phase = .persistenceFailed) :
    m'.state.phase = .persistenceFailed ∨
      Reloaded (⟨m, e, m'⟩ : Transition (ManagedClient I ρ) (Event I)) := by
  have hclosed : m.state.phase.closed = true := by rw [hphase]; rfl
  cases hstep.effect with
  | quiet hs' | status _ hs' | wentOn _ _ hs' | reloadBegan _ _ _ hs' | reloadFailed _ _ hs' =>
    left
    rw [hs']
    exact hphase
  | noted _ hopen | syncBegan _ _ hopen =>
    rw [hclosed] at hopen
    cases hopen
  | spawned _ _ _ ho =>
    cases ho with
    | initial hopen | recovery hopen =>
      rw [hclosed] at hopen
      cases hopen
  | workerEnded _ hk =>
    have := hs.exclusive.recovering.2 ⟨_, _, hk, rfl⟩
    rw [hphase] at this
    cases this
  | syncEnded _ hk =>
    have := hs.exclusive.updating.2 ⟨_, _, hk, rfl⟩
    rw [hs.exclusive.failed hphase] at this
    cases this
  | reloaded he hk => exact .inr ⟨_, he, hk⟩

/-- No protected query uses the session `q`, which the worker `k` has installed and not saved. -/
structure Quarantined (k q : ℕ) (m : ManagedClient I ρ) : Prop where
  reached : q ≤ m.client.current
  caller : ∀ n query, m.callers n = some (.admitted q query) → query.method.anonymous = false →
    q < m.client.current
  op : ∀ n op, m.client.ops (.caller n) = some (.running op) → op.method.anonymous = false →
    op.generation ≠ q
  guard : q < m.client.current ∨ Unpersisted k q m ∨
    m.state.phase = .persistenceFailed ∧ ∀ j, m.activities j ≠ some (.reload .replaced)

theorem Running.worker {w : Worker} (hk : m.activities k = some (.worker w)) :
    Running m .worker := ⟨k, _, hk, rfl⟩

/-- While the session `q` is current the phase is closed. -/
theorem Quarantined.closed (h : Quarantined k q m) (hs : Sound m) (hq : m.client.current = q) :
    m.state.phase.closed = true := by
  rcases h.guard with hlt | ⟨w, hk, -⟩ | ⟨hphase, -⟩
  · omega
  · rw [hs.exclusive.recovering.2 (.worker hk)]
    rfl
  · rw [hphase]
    rfl

/-- The guard of the quarantine: the session is superseded, or its worker is there, or the phase is
`PersistenceFailed`. -/
theorem Quarantined.guard_step [DecidableEq ρ] (h : Quarantined k q m) (hs : Sound m)
    (hstep : m.step setup e = some m') (he : e ≠ .workerReturn k (.ok ())) :
    q < m'.client.current ∨ Unpersisted k q m' ∨
      m'.state.phase = .persistenceFailed ∧ ∀ j, m'.activities j ≠ some (.reload .replaced) := by
  have hle := current_le_of_step hstep
  rcases h.guard with hlt | hun | ⟨hphase, hnot⟩
  · exact .inl (by omega)
  · rcases hun.step hs (Step.of_step hstep) he with hun | ⟨-, hnone, hphase⟩
    · exact .inr (.inl hun)
    · exact .inr (.inr ⟨hphase h.reached, fun j => by simp [hnone j]⟩)
  · rcases persistenceFailed_of_step hs (Step.of_step hstep) hphase with hphase' | ⟨j, -, hj⟩
    · by_cases hrep : ∀ j, m'.activities j ≠ some (.reload .replaced)
      · exact .inr (.inr ⟨hphase', hrep⟩)
      · -- a reload has just replaced the session
        simp only [not_forall, not_not] at hrep
        obtain ⟨j, hj⟩ := hrep
        have hne := replaced_of_step (Step.of_step hstep) hj (hnot j)
        exact .inl (by have := h.reached; omega)
    · exact absurd hj (hnot j)

theorem Quarantined.step [DecidableEq ρ] (h : Quarantined k q m) (hs : Sound m)
    (hstep : m.step setup e = some m') (he : e ≠ .workerReturn k (.ok ())) :
    Quarantined k q m' := by
  have hle := current_le_of_step hstep
  refine ⟨h.reached.trans hle, fun n query hn ha => ?_, fun n op hop ha => ?_,
    h.guard_step hs hstep he⟩
  · refine lt_of_lt_of_le ?_ hle
    rcases admitted_of_step (Step.of_step hstep) hn with hn' | ⟨hg, hopen⟩
    · exact h.caller n query hn' ha
    · refine lt_of_le_of_ne hg fun hq => ?_
      rw [h.closed hs hq.symm] at hopen
      exact absurd (hopen ha) (by simp)
  · rcases running_of_step (Step.of_step hstep) hop with ⟨op', hop', hg, hm⟩ | ⟨hg, hcaller⟩
    · rw [hg]
      exact h.op n op' hop' (hm ▸ ha)
    · rw [hg]
      rintro rfl
      obtain ⟨query, hn, hanonymous⟩ := hcaller n rfl
      exact absurd (h.caller n query hn (hanonymous ▸ ha)) (lt_irrefl _)

theorem quarantined_of_run [DecidableEq ρ] (hrun : Run (step setup) m ts m') (hs : Sound m)
    (h : Quarantined k q m) (hno : ∀ t ∈ ts, t.event ≠ .workerReturn k (.ok ())) :
    Quarantined k q m' := by
  induction hrun with
  | nil => exact h
  | snoc hrun hstep ih =>
    exact (ih fun t ht => hno t (List.mem_append_left _ ht)).step (sound_of_run hrun hs) hstep
      (hno _ (List.mem_append_right _ (List.mem_singleton_self _)))

/-- A worker that replaces the session has not returned yet. -/
theorem worker_of_install (hs : Sound m) (hstep : Step setup m e m')
    (hnew : m'.client.current ≠ m.client.current) {w : Worker}
    (hk : m.activities k = some (.worker w)) : w.result = none ∧ ∀ j, e ≠ .workerEnd j := by
  have only : ∀ {j : ℕ} {a : Activity}, m.activities j = some a → a = .worker w := by
    intro j a hj
    obtain rfl := hs.exclusive.unique j k (by simp [hj]) (by simp [hk])
    rw [hk] at hj
    exact (Option.some.inj hj).symm
  cases (installs_cases hs.owned hstep hnew).1 with
  | login he hj hr | imported he hj hr | replaced he hj hr =>
    cases only hj
    exact ⟨hr, fun j => by rw [he]; simp⟩
  | version _ _ _ hj | reloaded _ hj => cases only hj

theorem unpersisted_of_install [DecidableEq ρ]
    {t : Transition (ManagedClient I ρ) (Event I)} (hs : Sound t.before) (hi : Issued t.before)
    (hstep : t.before.step setup t.event = some t.after) (ht : WorkerInstall k t)
    (he : t.event ≠ .workerReturn k (.ok ())) : Unpersisted k t.after.client.current t.after := by
  obtain ⟨-, ⟨w, hk⟩, hnew⟩ := ht
  obtain ⟨-, hnext⟩ := installs_cases hs.owned (Step.of_step hstep) hnew
  obtain ⟨hr, hend⟩ := worker_of_install hs (Step.of_step hstep) hnew hk
  have hbefore : Unpersisted k t.after.client.current t.before :=
    ⟨w, hk, by have := hi.worker k w hk; omega, by simp [hr]⟩
  rcases hbefore.step hs (Step.of_step hstep) he with hun | ⟨hworkerEnd, -⟩
  · exact hun
  · exact absurd hworkerEnd (hend k)

/-- The session that a worker has just installed is quarantined. -/
theorem quarantined_of_install [DecidableEq ρ]
    {t : Transition (ManagedClient I ρ) (Event I)} (hs : Sound t.before) (hi : Issued t.before)
    (hstep : t.before.step setup t.event = some t.after) (ht : WorkerInstall k t)
    (he : t.event ≠ .workerReturn k (.ok ())) : Quarantined k t.after.client.current t.after := by
  have hnext := (installs_cases hs.owned (Step.of_step hstep) ht.2.2).2
  refine ⟨le_rfl, fun n query hn _ => ?_, fun n op hop _ => ?_,
    .inr (.inl (unpersisted_of_install hs hi hstep ht he))⟩
  · rcases admitted_of_step (Step.of_step hstep) hn with hn' | ⟨hg, -⟩
    · have := hi.caller n _ query hn'
      omega
    · omega
  · rcases running_of_step (Step.of_step hstep) hop with ⟨op', hop', hg, -⟩ | ⟨hg, -⟩
    · have := hi.op _ op' hop'
      omega
    · omega

/-- No version update leaves a quarantined session. -/
theorem Quarantined.no_update [DecidableEq ρ] (h : Quarantined k q m) (hs : Sound m)
    (hstep : m.step setup e = some m') (b : ℕ) :
    ¬ VersionUpdate (⟨m, e, m'⟩ : Transition (ManagedClient I ρ) (Event I)) q b := by
  intro hu
  have hq : m.client.current = q := hu.1
  refine no_update_while hs (Step.of_step hstep) ?_ q b hu
  rcases h.guard with hlt | ⟨w, hk, -⟩ | ⟨hphase, -⟩
  · omega
  · exact .inl (.worker hk)
  · exact .inr hphase

/-- The phase after a worker that has left an unpersisted session, until a reload succeeds. -/
theorem persistenceFailed_of_run [DecidableEq ρ] (hrun : Run (step setup) m ts m') (hs : Sound m)
    (hphase : m.state.phase = .persistenceFailed) (hno : ∀ t ∈ ts, ¬ Reloaded t) :
    m'.state.phase = .persistenceFailed := by
  induction hrun with
  | nil => exact hphase
  | snoc hrun hstep ih =>
    have h := ih fun t ht => hno t (List.mem_append_left _ ht)
    refine (persistenceFailed_of_step (sound_of_run hrun hs) (Step.of_step hstep) h).resolve_right ?_
    exact hno _ (List.mem_append_right _ (List.mem_singleton_self _))

/-- A worker that has replaced the session and not returned `Ok` leaves `PersistenceFailed`. -/
theorem unpersisted_of_run [DecidableEq ρ] (hrun : Run (step setup) m ts m') (hs : Sound m)
    (h : Unpersisted k q m) (hno : ∀ t ∈ ts, t.event ≠ .workerReturn k (.ok ())) :
    Unpersisted k q m' ∨ Over k m' := by
  induction hrun with
  | nil => exact .inl h
  | @snoc ts d e d' hrun hstep ih =>
    rcases ih fun t ht => hno t (List.mem_append_left _ ht) with h | h
    · have hd := sound_of_run hrun hs
      rcases h.step hd (Step.of_step hstep)
        (hno _ (List.mem_append_right _ (List.mem_singleton_self _))) with h' | ⟨-, hnone, -⟩
      · exact .inl h'
      · obtain ⟨w, hk, -⟩ := h
        exact .inr ⟨hnone k, (hd.exclusive.lt_nextActivity hk).trans_le
          (nextActivity_le_of_step (Step.of_step hstep))⟩
    · exact .inr (h.step hstep)

/-- **Unpersisted sessions are quarantined.**  In every run of a managed client: if a worker
replaces the session and never returns `Ok`, then no protected call of `execute` is started under
that generation or under one of its successors by version update, and from the end of the worker the
phase is `PersistenceFailed` until a reload succeeds. -/
theorem unpersisted_quarantined [DecidableEq ρ] {config : SessionConfig}
    {provider : Option StaticCredentials} {transport : Transport} {now : ℕ} {client : Client Task}
    {input : I} {before after : List (Transition (ManagedClient I ρ) (Event I))}
    {t : Transition (ManagedClient I ρ) (Event I)}
    (hclient : Client.withTransport setup.lib setup.options config provider transport now =
      .ok client)
    (hrun : Run (step setup) (initial client input) (before ++ t :: after) m)
    (ht : WorkerInstall k t)
    (hno : ∀ s ∈ t :: after, s.event ≠ .workerReturn k (.ok ())) :
    (∀ s ∈ before ++ t :: after, ∀ n op, s.event = .client (.start (.caller n)) →
      s.before.client.ops (.caller n) = some (.running op) → op.method.anonymous = false →
        ¬ Lineage (before ++ t :: after) t.after.client.current op.generation) ∧
    (∀ mid s rest, after = mid ++ s :: rest → s.event = .workerEnd k →
      (∀ r ∈ rest, ¬ Reloaded r) → m.state.phase = .persistenceFailed) := by
  have hops : ∀ task, client.ops task = none := by
    obtain ⟨session, -, rfl⟩ := Client.withTransport_ok hclient
    exact fun _ => rfl
  obtain ⟨hbefore, hstep, hafter⟩ := hrun.around
  have hs := sound_of_run hbefore (sound_initial hops input)
  have hi := issued_of_run hbefore (issued_initial hops input)
  have hs' := hs.step hstep
  have hq := quarantined_of_install hs hi hstep ht (hno t List.mem_cons_self)
  have hno' : ∀ s ∈ after, s.event ≠ .workerReturn k (.ok ()) := fun s hmem =>
    hno s (List.mem_cons_of_mem _ hmem)
  have hnext := (installs_cases hs.owned (Step.of_step hstep) ht.2.2).2
  -- the session is quarantined in every state after its installation
  have quarantined : ∀ mid s rest, after = mid ++ s :: rest →
      Quarantined k t.after.client.current s.before ∧ Sound s.before ∧
        s.before.step setup s.event = some s.after := by
    rintro mid s rest rfl
    obtain ⟨hmid, hsstep, -⟩ := hafter.around
    exact ⟨quarantined_of_run hmid hs' hq fun r hr => hno' r (List.mem_append_left _ hr),
      sound_of_run hmid hs', hsstep⟩
  -- before its installation the session does not exist
  have earlier : ∀ s ∈ before, s.before.client.current < t.after.client.current ∧
      Issued s.before := by
    intro s hmem
    obtain ⟨x, y, rfl⟩ := List.append_of_mem hmem
    obtain ⟨hx, hsstep, hy⟩ := hbefore.around
    have h1 := current_le_of_step hsstep
    have h2 := current_le_of_run hy
    exact ⟨by omega, issued_of_run hx (issued_initial hops input)⟩
  have nolink : ∀ s ∈ before ++ t :: after, ∀ c,
      ¬ VersionUpdate s t.after.client.current c := by
    intro s hmem c hu
    have hcur : s.before.client.current = t.after.client.current := hu.1
    rcases List.mem_append.1 hmem with hmem | hmem
    · have := (earlier s hmem).1
      omega
    · rcases List.mem_cons.1 hmem with rfl | hmem
      · omega
      · obtain ⟨mid, rest, rfl⟩ := List.append_of_mem hmem
        obtain ⟨hqs, hss, hsstep⟩ := quarantined mid s rest rfl
        exact hqs.no_update hss hsstep c hu
  refine ⟨fun s hmem n op he hop ha hlineage => ?_, fun mid s rest hsplit he hnoreload => ?_⟩
  · have hg := hlineage.eq_of_no_link nolink
    rcases List.mem_append.1 hmem with hmem | hmem
    · obtain ⟨hlt, hissued⟩ := earlier s hmem
      have := hissued.op _ op hop
      omega
    · rcases List.mem_cons.1 hmem with rfl | hmem
      · have := hi.op _ op hop
        omega
      · obtain ⟨mid, rest, rfl⟩ := List.append_of_mem hmem
        exact (quarantined mid s rest rfl).1.op n op hop ha hg
  · obtain ⟨hqs, hss, hsstep⟩ := quarantined mid s rest hsplit
    subst hsplit
    obtain ⟨hmid, -, hrest⟩ := hafter.around
    have hstart := unpersisted_of_install hs hi hstep ht (hno t List.mem_cons_self)
    rw [he] at hsstep
    obtain ⟨hk, hk'⟩ := activity_of_workerEnd (Step.of_step hsstep)
    have hun : Unpersisted k t.after.client.current s.before := by
      refine (unpersisted_of_run hmid hs' hstart fun r hr =>
        hno' r (List.mem_append_left _ hr)).resolve_right ?_
      rintro ⟨hnone, -⟩
      exact hk hnone
    rcases hun.step hss (Step.of_step hsstep) (by simp) with ⟨w, hw, -⟩ | ⟨-, -, hphase⟩
    · rw [hk'] at hw
      cases hw
    · exact persistenceFailed_of_run hrest (hss.step hsstep) (hphase hqs.reached) hnoreload

/-- A worker of the sample client, about to replace the session. -/
def loadEvents : List (Event ℕ) :=
  queryEvents 0 0 ++ observeEvents 0 ++ [.workerConfig 0]

def loadingClient : ManagedClient ℕ ℕ := (exec sampleStep sampleManaged loadEvents).get rfl

/-- The installation of the saved session. -/
def loadTransition : Transition (ManagedClient ℕ ℕ) (Event ℕ) where
  before := loadingClient
  event := .workerReplace 0 sampleProvider
  after := (sampleStep loadingClient (.workerReplace 0 sampleProvider)).get rfl

/-- The worker times out, and a protected query comes in. -/
def timeoutEvents : List (Event ℕ) :=
  [.workerReturn 0 (.error (.new .timeout)), .workerEnd 0, .execute 1 1 ⟨.profile, [], true⟩]

def timeoutRun : List (Transition (ManagedClient ℕ ℕ) (Event ℕ)) :=
  transitions sampleStep loadTransition.after timeoutEvents

theorem unpersisted_quarantined_timeout :
    ((exec sampleStep loadTransition.after timeoutEvents).get rfl).state.phase =
      .persistenceFailed := by
  have hclient : Client.withTransport sampleLibraries Client.sampleOptions sampleConfig none
      sampleTransport 0 = .ok sampleManaged.client := rfl
  have hload : sampleStep loadingClient loadTransition.event = some loadTransition.after :=
    (Option.some_get rfl).symm
  have hrun : Run (step sampleSetup) (initial sampleManaged.client 0)
      (transitions sampleStep sampleManaged loadEvents ++ loadTransition :: timeoutRun) _ :=
    (run_get loadEvents rfl).append (Run.cons_iff.2 ⟨rfl, hload, run_get timeoutEvents rfl⟩)
  have hevents : (loadTransition :: timeoutRun).map Transition.event =
      .workerReplace 0 sampleProvider :: timeoutEvents := rfl
  have hno : ∀ s ∈ loadTransition :: timeoutRun, s.event ≠ .workerReturn 0 (.ok ()) := by
    intro s hs he
    have hmem := List.mem_map_of_mem (f := Transition.event) hs
    rw [hevents, he] at hmem
    simp [timeoutEvents] at hmem
  have hnoreload : ∀ r ∈ [timeoutRun.get ⟨2, by decide⟩], ¬ Reloaded r := by
    rintro r hr ⟨j, he, -⟩
    obtain rfl := List.mem_singleton.1 hr
    cases he
  exact (unpersisted_quarantined hclient hrun ⟨rfl, ⟨_, rfl⟩, by decide⟩ hno).2
    [timeoutRun.get ⟨0, by decide⟩] (timeoutRun.get ⟨1, by decide⟩)
    [timeoutRun.get ⟨2, by decide⟩] rfl rfl hnoreload

end MoenotesApi.ManagedClient
