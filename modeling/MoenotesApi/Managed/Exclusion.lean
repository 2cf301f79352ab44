import MoenotesApi.Managed.Step

/-!
# Writers exclude each other

Recovery workers, version syncs and reloads replace the session.  The phase `Recovering`, the flag
`version_updating` and the state lock tell them apart, and each of them begins only when no other is
there.

* `Exclusive`: at most one activity, and the state says which kind it is of;
* `Exclusive.step`: every event keeps it so;
* `Over`: an activity that has ended does not come back.
-/

namespace MoenotesApi.ManagedClient

open Runs

variable {I ρ : Type} {setup : Setup I ρ} {m m' : ManagedClient I ρ} {e : Event I}

/-- An activity of the kind `kind` is running. -/
def Running (m : ManagedClient I ρ) (kind : ActivityKind) : Prop :=
  ∃ k a, m.activities k = some a ∧ a.kind = kind

/-- The activities exclude each other, and the state says which kind is running. -/
structure Exclusive (m : ManagedClient I ρ) : Prop where
  fresh : ∀ k, m.nextActivity ≤ k → m.activities k = none
  unique : ∀ j k, m.activities j ≠ none → m.activities k ≠ none → j = k
  recovering : m.state.phase = .recovering ↔ Running m .worker
  updating : m.state.versionUpdating = true ↔ Running m .sync
  locked : ∀ k, m.lock = some k ↔ ∃ r, m.activities k = some (.reload r)
  failed : m.state.phase = .persistenceFailed → m.state.versionUpdating = false

/-! ### One activity begins, goes on or ends -/

theorem exclusive_initial (client : Client Task) (input : I) :
    Exclusive (initial client input : ManagedClient I ρ) where
  fresh := by simp [initial]
  unique := by simp [initial]
  recovering := by simp [initial, State.new, Running]
  updating := by simp [initial, State.new, Running]
  locked := by simp [initial]
  failed := by simp [initial, State.new]

/-- No activity is running when the state says so. -/
theorem Exclusive.idle (h : Exclusive m) (hl : m.lock = none) (hphase : m.state.phase ≠ .recovering)
    (hu : m.state.versionUpdating = false) (k : ℕ) : m.activities k = none := by
  cases hk : m.activities k with
  | none => rfl
  | some a =>
    exfalso
    cases a with
    | worker w => exact hphase (h.recovering.2 ⟨k, _, hk, rfl⟩)
    | sync s =>
      have := h.updating.2 ⟨k, _, hk, rfl⟩
      rw [hu] at this
      cases this
    | reload r =>
      have := (h.locked k).2 ⟨r, hk⟩
      rw [hl] at this
      cases this

/-- The activity that is running is of the kind that runs. -/
theorem Exclusive.kind_eq (h : Exclusive m) {k : ℕ} {a : Activity} {kind : ActivityKind}
    (hk : m.activities k = some a) (hrunning : Running m kind) : a.kind = kind := by
  obtain ⟨j, b, hj, hb⟩ := hrunning
  obtain rfl := h.unique j k (by simp [hj]) (by simp [hk])
  rw [hk] at hj
  obtain rfl := Option.some.inj hj
  exact hb

theorem Exclusive.phase_ne (h : Exclusive m) {k : ℕ} {a : Activity} (hk : m.activities k = some a)
    (ha : a.kind ≠ .worker) : m.state.phase ≠ .recovering :=
  fun hp => ha (h.kind_eq hk (h.recovering.1 hp))

theorem Exclusive.not_updating (h : Exclusive m) {k : ℕ} {a : Activity}
    (hk : m.activities k = some a) (ha : a.kind ≠ .sync) : m.state.versionUpdating = false := by
  by_contra hu
  exact ha (h.kind_eq hk (h.updating.1 (by simpa using hu)))

/-- The only activity, once it has begun. -/
theorem running_of_began {k : ℕ} {a : Activity} {kind : ActivityKind}
    (hnone : ∀ j, m.activities j = none)
    (ha : m'.activities = Function.update m.activities k (some a)) :
    Running m' kind ↔ a.kind = kind := by
  constructor
  · rintro ⟨j, b, hj, hb⟩
    rw [ha, Function.update_apply] at hj
    split_ifs at hj
    · obtain rfl := Option.some.inj hj
      exact hb
    · rw [hnone] at hj
      cases hj
  · intro hk
    exact ⟨k, a, by simp [ha], hk⟩

theorem unique_of_began {k : ℕ} {a : Activity} (hnone : ∀ j, m.activities j = none)
    (ha : m'.activities = Function.update m.activities k (some a)) (i j : ℕ)
    (hi : m'.activities i ≠ none) (hj : m'.activities j ≠ none) : i = j := by
  have only : ∀ i, m'.activities i ≠ none → i = k := by
    intro i hi
    by_contra hik
    exact hi (by rw [ha, Function.update_of_ne hik, hnone])
  rw [only i hi, only j hj]

theorem fresh_of_began {a : Activity} (h : Exclusive m)
    (ha : m'.activities = Function.update m.activities m.nextActivity (some a))
    (hn : m'.nextActivity = m.nextActivity + 1) (k : ℕ) (hk : m'.nextActivity ≤ k) :
    m'.activities k = none := by
  rw [hn] at hk
  rw [ha, Function.update_of_ne (by omega)]
  exact h.fresh k (by omega)

/-- The reloads after an activity of another kind has begun: none. -/
theorem not_reload_of_began {k : ℕ} {a : Activity} (hnone : ∀ j, m.activities j = none)
    (hkind : a.kind ≠ .reload) (ha : m'.activities = Function.update m.activities k (some a))
    (j : ℕ) (r : Reload) : m'.activities j ≠ some (.reload r) := by
  intro hj
  rw [ha, Function.update_apply] at hj
  split_ifs at hj
  · obtain rfl := Option.some.inj hj
    exact hkind rfl
  · rw [hnone] at hj
    cases hj

/-- No activity is left when the only one has ended. -/
theorem none_of_ended (h : Exclusive m) {k : ℕ} {a : Activity} (hk : m.activities k = some a)
    (ha : m'.activities = Function.update m.activities k none) (j : ℕ) : m'.activities j = none := by
  rw [ha]
  by_cases hjk : j = k
  · subst hjk
    simp
  · rw [Function.update_of_ne hjk]
    by_contra hj
    exact hjk (h.unique j k hj (by simp [hk]))

theorem running_of_wentOn {k : ℕ} {a a' : Activity} {kind : ActivityKind}
    (hk : m.activities k = some a) (hkind : a'.kind = a.kind)
    (ha : m'.activities = Function.update m.activities k (some a')) :
    Running m' kind ↔ Running m kind := by
  constructor
  · rintro ⟨j, b, hj, hb⟩
    rw [ha, Function.update_apply] at hj
    split_ifs at hj
    · obtain rfl := Option.some.inj hj
      exact ⟨k, a, hk, hkind.symm.trans hb⟩
    · exact ⟨j, b, hj, hb⟩
  · rintro ⟨j, b, hj, hb⟩
    by_cases hjk : j = k
    · subst hjk
      rw [hk] at hj
      obtain rfl := Option.some.inj hj
      exact ⟨j, a', by simp [ha], hkind.trans hb⟩
    · exact ⟨j, b, by rw [ha, Function.update_of_ne hjk, hj], hb⟩

theorem Activity.kind_eq_reload {a : Activity} : a.kind = .reload ↔ ∃ r, a = .reload r := by
  cases a <;> simp [Activity.kind]

/-- What the invariant says about the lock, in terms of the kind of the activity. -/
theorem reload_of_wentOn {k j : ℕ} {a a' : Activity} (hk : m.activities k = some a)
    (hkind : a'.kind = a.kind) (ha : m'.activities = Function.update m.activities k (some a')) :
    (∃ r, m'.activities j = some (.reload r)) ↔ ∃ r, m.activities j = some (.reload r) := by
  by_cases hjk : j = k
  · subst hjk
    simp only [ha, Function.update_self, hk, Option.some.injEq]
    rw [← Activity.kind_eq_reload, ← Activity.kind_eq_reload, hkind]
  · simp only [ha, Function.update_of_ne hjk]

/-- After the end of the only activity, a state that says so is right. -/
theorem exclusive_of_none (hnone : ∀ j, m.activities j = none) (hphase : m.state.phase ≠ .recovering)
    (hu : m.state.versionUpdating = false) (hl : m.lock = none) : Exclusive m where
  fresh k _ := hnone k
  unique j k hj _ := absurd (hnone j) hj
  recovering := ⟨fun h => absurd h hphase, fun ⟨k, a, hk, _⟩ => by simp [hnone] at hk⟩
  updating := ⟨fun h => by simp [hu] at h, fun ⟨k, a, hk, _⟩ => by simp [hnone] at hk⟩
  locked k := ⟨fun h => by simp [hl] at h, fun ⟨r, hr⟩ => by simp [hnone] at hr⟩
  failed _ := hu

theorem running_congr {kind : ActivityKind} (ha : m'.activities = m.activities) :
    Running m' kind ↔ Running m kind := by
  unfold Running
  rw [ha]

/-- An event that keeps the activities keeps the invariant, if the state still says the same. -/
theorem Exclusive.of_same (h : Exclusive m) (ha : m'.activities = m.activities)
    (hn : m'.nextActivity = m.nextActivity) (hl : m'.lock = m.lock)
    (hphase : m'.state.phase = .recovering ↔ m.state.phase = .recovering)
    (hu : m'.state.versionUpdating = m.state.versionUpdating)
    (hf : m'.state.phase = .persistenceFailed → m.state.phase = .persistenceFailed) :
    Exclusive m' where
  fresh k hk := by rw [ha]; exact h.fresh k (hn ▸ hk)
  unique := by rw [ha]; exact h.unique
  recovering := by rw [hphase, h.recovering, running_congr ha]
  updating := by rw [hu, h.updating, running_congr ha]
  locked k := by rw [hl, ha]; exact h.locked k
  failed hp := by rw [hu]; exact h.failed (hf hp)

theorem Exclusive.of_effect (h : Exclusive m) (heff : Effect setup m e m') : Exclusive m' := by
  cases heff with
  | quiet hs ha hn hl => exact h.of_same ha hn hl (by rw [hs]) (by rw [hs]) (by rw [hs]; exact id)
  | status _ hs _ ha hn hl =>
    exact h.of_same ha hn hl (by rw [hs]) (by rw [hs]) (by rw [hs]; exact id)
  | noted _ hopen hphase hs _ ha hn hl =>
    rw [Phase.closed_eq_false] at hopen hphase
    refine h.of_same ha hn hl ?_ (by rw [hs]) ?_
    · rw [hs]
      exact ⟨fun hp => absurd hp hphase.1, fun hp => absurd hp hopen.1⟩
    · rw [hs]
      exact fun hp => absurd hp hphase.2
  | wentOn _ hk hs ha hkind hn hl _ =>
    refine ⟨fun k' hk' => ?_, fun i j hi hj => ?_, ?_, ?_, fun k' => ?_, by rw [hs]; exact h.failed⟩
    · rw [hn] at hk'
      have := h.fresh k' hk'
      rw [ha, Function.update_of_ne, this]
      rintro rfl
      rw [hk] at this
      cases this
    · have running : ∀ i, m'.activities i ≠ none → m.activities i ≠ none := by
        intro i hi
        rw [ha, Function.update_apply] at hi
        split_ifs at hi with hik
        · simp [hik, hk]
        · exact hi
      exact h.unique i j (running i hi) (running j hj)
    · rw [hs, h.recovering, running_of_wentOn hk hkind ha]
    · rw [hs, h.updating, running_of_wentOn hk hkind ha]
    · rw [hl, h.locked, reload_of_wentOn hk hkind ha]
  | @spawned n result state w _ _ hfree ho hs _ ha hn hl =>
    -- the critical section has found an open phase, no sync and a free lock
    have hbefore : m.state.phase ≠ .recovering ∧ m.state.versionUpdating = false ∧
        state.phase = .recovering ∧ state.versionUpdating = false := by
      cases ho with
      | initial hopen _ _ hu => exact ⟨(Phase.closed_eq_false.1 hopen).1, hu, rfl, hu⟩
      | recovery hopen _ _ hu => exact ⟨(Phase.closed_eq_false.1 hopen).1, hu, rfl, hu⟩
    obtain ⟨hphase, hu, hphase', hu'⟩ := hbefore
    have hnone := h.idle hfree hphase hu
    refine ⟨fresh_of_began h ha hn, unique_of_began hnone ha, ?_, ?_, fun k => ?_, ?_⟩
    · rw [running_of_began hnone ha, hs, hphase']
      simp [Activity.kind]
    · rw [running_of_began hnone ha, hs, hu']
      simp [Activity.kind]
    · rw [hl, hfree]
      exact ⟨nofun, fun ⟨r, hr⟩ => absurd hr (not_reload_of_began hnone (by simp [Activity.kind]) ha _ _)⟩
    · rw [hs, hu']
      exact fun _ => rfl
  | syncBegan hfree hu hopen hs _ ha hn hl =>
    rw [Phase.closed_eq_false] at hopen
    have hnone := h.idle hfree hopen.1 hu
    refine ⟨fresh_of_began h ha hn, unique_of_began hnone ha, ?_, ?_, fun k => ?_, ?_⟩
    · rw [running_of_began hnone ha, hs]
      simp [Activity.kind, hopen.1]
    · rw [running_of_began hnone ha, hs]
      simp [Activity.kind]
    · rw [hl, hfree]
      exact ⟨nofun, fun ⟨r, hr⟩ => absurd hr (not_reload_of_began hnone (by simp [Activity.kind]) ha _ _)⟩
    · rw [hs]
      exact fun hp => absurd hp hopen.2
  | reloadBegan hfree hphase hu hs _ ha hn hl =>
    have hnone := h.idle hfree hphase hu
    refine ⟨fresh_of_began h ha hn, unique_of_began hnone ha, ?_, ?_, fun k => ?_, ?_⟩
    · rw [running_of_began hnone ha, hs]
      simp [Activity.kind, hphase]
    · rw [running_of_began hnone ha, hs]
      simp [Activity.kind, hu]
    · rw [hl, ha]
      by_cases hk : k = m.nextActivity
      · subst hk
        simp
      · simp [Function.update_of_ne hk, hnone, Ne.symm hk]
    · rw [hs]
      exact h.failed
  | workerEnded _ hk _ hfree hs _ ha _ hl =>
    refine exclusive_of_none (none_of_ended h hk ha) ?_ ?_ (hl.trans hfree)
    · rw [hs]
      exact State.ended_phase_ne_recovering _ _ _ _
    · rw [hs, State.ended_versionUpdating]
      exact h.not_updating hk (by simp [Activity.kind])
  | syncEnded _ hk hfree hs _ ha _ hl =>
    refine exclusive_of_none (none_of_ended h hk ha) ?_ ?_ (hl.trans hfree)
    · rw [hs]
      rcases State.synced_phase m.state _ _ _ _ _ _ _ with hp | hp <;> rw [hp]
      · exact h.phase_ne hk (by simp [Activity.kind])
      · simp
    · rw [hs, State.synced_versionUpdating]
  | reloadFailed _ hk hs _ ha _ hl =>
    refine exclusive_of_none (none_of_ended h hk ha) ?_ ?_ hl <;> rw [hs]
    · exact h.phase_ne hk (by simp [Activity.kind])
    · exact h.not_updating hk (by simp [Activity.kind])
  | reloaded _ hk hs _ ha _ hl =>
    refine exclusive_of_none (none_of_ended h hk ha) ?_ ?_ hl <;> rw [hs]
    · simp [State.reloaded]
    · exact h.not_updating hk (by simp [Activity.kind])

theorem Exclusive.step [DecidableEq ρ] (h : Exclusive m) (hstep : m.step setup e = some m') :
    Exclusive m' :=
  h.of_effect (Step.of_step hstep).effect

theorem Exclusive.lt_nextActivity (h : Exclusive m) {k : ℕ} {a : Activity}
    (hk : m.activities k = some a) : k < m.nextActivity := by
  by_contra hle
  rw [h.fresh k (not_lt.1 hle)] at hk
  cases hk

theorem nextActivity_le_of_step (hstep : Step setup m e m') : m.nextActivity ≤ m'.nextActivity := by
  cases hstep.effect <;> omega

/-- The activity `k` is over; its number is not used again. -/
def Over (k : ℕ) (m : ManagedClient I ρ) : Prop := m.activities k = none ∧ k < m.nextActivity

theorem Over.step [DecidableEq ρ] {k : ℕ} (h : Over k m) (hstep : m.step setup e = some m') :
    Over k m' := by
  obtain ⟨hnone, hlt⟩ := h
  have other : ∀ {j : ℕ} {a : Activity}, m.activities j = some a → k ≠ j := by
    rintro j a hj rfl
    rw [hnone] at hj
    cases hj
  cases (Step.of_step hstep).effect with
  | quiet _ ha hn | status _ _ _ ha hn | noted _ _ _ _ _ ha hn =>
    exact ⟨by rw [ha, hnone], by omega⟩
  | spawned _ _ _ _ _ _ ha hn | syncBegan _ _ _ _ _ ha hn | reloadBegan _ _ _ _ _ ha hn =>
    exact ⟨by rw [ha, Function.update_of_ne (by omega), hnone], by omega⟩
  | wentOn _ hj _ ha _ hn | workerEnded _ hj _ _ _ _ ha hn | syncEnded _ hj _ _ _ ha hn
  | reloadFailed _ hj _ _ ha hn | reloaded _ hj _ _ ha hn =>
    exact ⟨by rw [ha, Function.update_of_ne (other hj), hnone], by omega⟩

end MoenotesApi.ManagedClient
