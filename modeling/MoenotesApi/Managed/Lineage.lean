import MoenotesApi.Managed.Ownership

/-!
# Lineages and reloads

Two notions of the history of a managed client.

* `Lineage`: a generation together with all its successors by version update;
* `Reloaded`: a reload succeeds;
* `Issued`: callers, operations and workers have only generations that the client has issued;
* `no_update_while`: while a worker runs, or after an unpersisted login, no version update happens.
-/

namespace MoenotesApi.ManagedClient

open Runs

variable {I ρ : Type} {setup : Setup I ρ} {m m' : ManagedClient I ρ} {e : Event I}
variable {ts us : List (Transition (ManagedClient I ρ) (Event I))}

/-- A version discovery replaces the session `a` by the session `b`. -/
def VersionUpdate (t : Transition (ManagedClient I ρ) (Event I)) (a b : ℕ) : Prop :=
  t.before.client.current = a ∧ t.after.client.current = b ∧ a ≠ b ∧
    ∃ task files op presented, t.event = .client (.finish task files) ∧
      t.before.client.ops task = some (.running op) ∧ op.call = .version presented

/-- `b` is `a` or a successor of `a` by version updates of the run. -/
def Lineage (ts : List (Transition (ManagedClient I ρ) (Event I))) : ℕ → ℕ → Prop :=
  Descends VersionUpdate ts

/-- A reload succeeds. -/
def Reloaded (t : Transition (ManagedClient I ρ) (Event I)) : Prop :=
  ∃ k, t.event = .reloadEnd k ∧ t.before.activities k = some (.reload .replaced)

/-! ### Generations that have been issued -/

/-- Everybody's generation is one that the client has issued. -/
structure Issued (m : ManagedClient I ρ) : Prop where
  caller : ∀ n g query, m.callers n = some (.admitted g query) → g ≤ m.client.current
  op : ∀ task op, m.client.ops task = some (.running op) → op.generation ≤ m.client.current
  worker : ∀ k w, m.activities k = some (.worker w) → w.generation ≤ m.client.current

theorem issued_initial {client : Client Task} (hops : ∀ task, client.ops task = none) (input : I) :
    Issued (initial client input : ManagedClient I ρ) :=
  ⟨by simp [initial], by simp [initial, hops], by simp [initial]⟩

/-- Callers are admitted with a generation that has been issued, in an open phase. -/
theorem admitted_of_step (hstep : Step setup m e m') {n g : ℕ} {query : Query}
    (hn : m'.callers n = some (.admitted g query)) :
    m.callers n = some (.admitted g query) ∨
      g ≤ m.client.current ∧ (query.method.anonymous = false → m.state.phase.closed = false) := by
  cases hstep with
  | @execute j _ _ hj hg hopen =>
    by_cases hnj : n = j
    · subst hnj
      rw [setCaller_callers, Function.update_self] at hn
      cases hn
      exact .inr ⟨hg, hopen⟩
    · exact .inl (by simpa [hnj] using hn)
  | @call j | @returned j | @dropCaller j | @queryError j | @readNoError j | @readError j
  | @readGeneration j | @checkFailed j | @check j | @observeStale j | @observe j | @observeSpawn j =>
    have hnj : n ≠ j := by
      rintro rfl
      simp at hn
    exact .inl (by simpa [hnj] using hn)
  | _ => exact .inl hn

/-- A worker keeps its generation, and a new one has the current generation. -/
theorem worker_of_step (hstep : Step setup m e m') {k : ℕ} {w' : Worker}
    (hk : m'.activities k = some (.worker w')) :
    (∃ w, m.activities k = some (.worker w) ∧ w'.generation = w.generation ∧
      w'.initial = w.initial ∧
      (w'.result = w.result ∨ ∃ result, e = .workerReturn k result ∧ w'.result = some result)) ∨
    k = m.nextActivity ∧ w' = .spawned m.client.current w'.initial ∧ (∃ n, e = .observe n) := by
  have other : ∀ {j : ℕ} {a : Option Activity}, k ≠ j →
      m'.activities = Function.update m.activities j a → m.activities k = some (.worker w') := by
    intro j a hkj ha
    rw [ha, Function.update_of_ne hkj] at hk
    exact hk
  have same : m.activities k = some (.worker w') →
      ∃ w, m.activities k = some (.worker w) ∧ w'.generation = w.generation ∧
        w'.initial = w.initial ∧
        (w'.result = w.result ∨ ∃ result, e = .workerReturn k result ∧ w'.result = some result) :=
    fun h => ⟨w', h, rfl, rfl, .inl rfl⟩
  cases hstep.effect with
  | quiet _ ha | status _ _ _ ha | noted _ _ _ _ _ ha => exact .inl (same (ha ▸ hk))
  | spawned he _ _ ho _ _ ha =>
    by_cases hkj : k = m.nextActivity
    · subst hkj
      rw [ha, Function.update_self] at hk
      cases hk
      exact .inr ⟨rfl, ho.eq_spawned, _, he⟩
    · exact .inl (same (other hkj ha))
  | @wentOn j a a' he hj _ ha hkind _ _ hgo =>
    by_cases hkj : k = j
    · subst hkj
      rw [ha, Function.update_self] at hk
      cases hk
      cases a with
      | worker w =>
        obtain ⟨w₁, hw₁, hg, hi, hr⟩ := hgo.worker w rfl
        cases hw₁
        exact .inl ⟨w, hj, hg, hi, hr⟩
      | sync | reload => cases hkind
    · exact .inl (same (other hkj ha))
  | @workerEnded j _ _ _ _ _ _ _ _ ha | @syncEnded j _ _ _ _ _ _ _ _ _ _ ha
  | @reloadFailed j _ _ _ _ _ ha | @reloaded j _ _ _ _ ha =>
    by_cases hkj : k = j
    · subst hkj
      rw [ha, Function.update_self] at hk
      cases hk
    · exact .inl (same (other hkj ha))
  | syncBegan _ _ _ _ _ ha | reloadBegan _ _ _ _ _ ha =>
    by_cases hkj : k = m.nextActivity
    · subst hkj
      rw [ha, Function.update_self] at hk
      cases hk
    · exact .inl (same (other hkj ha))

/-- The closure of a reload has replaced the session in the step that says so. -/
theorem replaced_of_step (hstep : Step setup m e m') {k : ℕ}
    (hk : m'.activities k = some (.reload .replaced))
    (hbefore : m.activities k ≠ some (.reload .replaced)) :
    m'.client.current ≠ m.client.current := by
  cases hstep.effect with
  | quiet _ ha | status _ _ _ ha | noted _ _ _ _ _ ha => exact absurd (ha ▸ hk) hbefore
  | spawned _ _ _ _ _ _ ha | syncBegan _ _ _ _ _ ha | reloadBegan _ _ _ _ _ ha =>
    rw [ha, Function.update_apply] at hk
    split_ifs at hk
    · cases hk
    · exact absurd hk hbefore
  | wentOn _ _ _ ha _ _ _ hgo =>
    rw [ha, Function.update_apply] at hk
    split_ifs at hk
    · exact hgo.replaced (Option.some.inj hk)
    · exact absurd hk hbefore
  | workerEnded _ _ _ _ _ _ ha | syncEnded _ _ _ _ _ ha | reloadFailed _ _ _ _ ha
  | reloaded _ _ _ _ ha =>
    rw [ha, Function.update_apply] at hk
    split_ifs at hk
    exact absurd hk hbefore

/-- An operation under way keeps its generation and method, and a new one has the generation of the
session and was called by the task it belongs to. -/
theorem running_of_step (hstep : Step setup m e m') {task : Task} {op : Op}
    (hop : m'.client.ops task = some (.running op)) :
    (∃ op', m.client.ops task = some (.running op') ∧ op.generation = op'.generation ∧
      op.method = op'.method) ∨
    op.generation = m.client.current ∧ ∀ n, task = .caller n → ∃ query,
      m.callers n = some (.admitted m.client.current query) ∧
      op.method.anonymous = query.method.anonymous := by
  cases hstep.clientEffect with
  | same hc => exact .inl ⟨op, hc ▸ hop, rfl, rfl⟩
  | step hb hc =>
    rcases running_of_clientStep hc hop with ⟨op', hop', hg, hm, -⟩ | ⟨request, id, rfl, hp⟩
    · exact .inl ⟨op', hop', hg, hm⟩
    · refine .inr ⟨hp.generation, ?_⟩
      rintro n rfl
      cases hb with
      | progress hprogress => cases hprogress
      | callerCall hn =>
        cases hp with
        | execute _ _ hm => exact ⟨_, hn, Query.anonymous_of_methodForRegion hm⟩

theorem Issued.step [DecidableEq ρ] (h : Issued m) (hstep : m.step setup e = some m') :
    Issued m' := by
  have hle := current_le_of_step hstep
  refine ⟨fun n g query hn => ?_, fun task op hop => ?_, fun k w hk => ?_⟩
  · rcases admitted_of_step (Step.of_step hstep) hn with hn' | ⟨hg, -⟩
    · exact (h.caller n g query hn').trans hle
    · exact hg.trans hle
  · rcases running_of_step (Step.of_step hstep) hop with ⟨op', hop', hg, -⟩ | ⟨hg, -⟩
    · rw [hg]
      exact (h.op task op' hop').trans hle
    · rw [hg]
      exact hle
  · rcases worker_of_step (Step.of_step hstep) hk with ⟨w', hk', hg, -⟩ | ⟨-, hw, -⟩
    · rw [hg]
      exact (h.worker k w' hk').trans hle
    · rw [hw]
      exact hle

theorem issued_of_run [DecidableEq ρ] (hrun : Run (step setup) m ts m') (h : Issued m) :
    Issued m' :=
  hrun.invariant (fun _ _ _ h hstep => h.step hstep) h

theorem current_le_of_run [DecidableEq ρ] (hrun : Run (step setup) m ts m') :
    m.client.current ≤ m'.client.current :=
  hrun.preorder (R := fun a b => a.client.current ≤ b.client.current) (fun _ => le_rfl)
    (fun _ _ _ => le_trans) fun _ _ _ => current_le_of_step

/-! ### Version updates -/

/-- A version update is made by a sync that has read the generation which it replaces. -/
theorem sync_of_update (h : Owned m) (hstep : Step setup m e m') {a b : ℕ}
    (hu : VersionUpdate (⟨m, e, m'⟩ : Transition (ManagedClient I ρ) (Event I)) a b) :
    b = a + 1 ∧ ∃ k s, m.activities k = some (.sync s) ∧ s.stage.generation = some a ∧
      m'.client.session.credentials = m.client.session.credentials := by
  obtain ⟨rfl, rfl, hne, task, files, op, presented, he, hi, hcall⟩ := hu
  dsimp only at *
  obtain ⟨hinstall, hnext⟩ := installs_cases h hstep (Ne.symm hne)
  refine ⟨hnext, ?_⟩
  cases hinstall with
  | login he' _ _ hnot =>
    rw [he] at he'
    cases he'
    exact absurd hcall (hnot op presented hi)
  | version _ _ _ hk _ hg _ hcred => exact ⟨_, _, hk, hg, hcred⟩
  | imported he' | replaced he' | reloaded he' =>
    rw [he] at he'
    cases he'

/-- No version update happens while a worker runs, nor in the phase `PersistenceFailed`. -/
theorem no_update_while (hs : Sound m) (hstep : Step setup m e m')
    (h : Running m .worker ∨ m.state.phase = .persistenceFailed) (a b : ℕ) :
    ¬ VersionUpdate (⟨m, e, m'⟩ : Transition (ManagedClient I ρ) (Event I)) a b := by
  intro hu
  obtain ⟨-, k, s, hk, -⟩ := sync_of_update hs.owned hstep hu
  have hupdating := hs.exclusive.updating.2 ⟨k, _, hk, rfl⟩
  rcases h with h | h
  · exact absurd (hs.exclusive.kind_eq hk h) (by simp [Activity.kind])
  · rw [hs.exclusive.failed h] at hupdating
    cases hupdating

end MoenotesApi.ManagedClient
