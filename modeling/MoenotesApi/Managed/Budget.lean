import MoenotesApi.Managed.Sync

/-!
# The recovery budget

A recovery worker, one that is not an initial load, is a login against a real account.  The marker
`attempted` allows one for each lineage of generations, and `last_attempt` keeps any two of them
apart.

* `Markers`: which events touch the markers of recovery attempts, and how;
* `Starts`, `Refused`, `Adopts`: what happens to workers and syncs in a run;
* `Spent`: the invariant of a lineage after its first recovery worker;
* `Cooling`: the invariant of the cooldown;
* `recovery_budget`: both, over whole runs, and the events that restore nothing.
-/

namespace MoenotesApi.ManagedClient

open Runs

variable {I ρ : Type} {setup : Setup I ρ} {m m' : ManagedClient I ρ} {e : Event I}
variable {ts us : List (Transition (ManagedClient I ρ) (Event I))}

/-! ### The events that touch the markers -/

/-- What an event does to the markers of recovery attempts. -/
inductive Markers (setup : Setup I ρ) (m : ManagedClient I ρ) (e : Event I)
    (m' : ManagedClient I ρ) : Prop
  | kept (hend : ∀ k, e ≠ .workerEnd k) (hsync : ∀ k time, e ≠ .syncEnd k time)
      (hworker : ∀ k w, m'.activities k = some (.worker w) → m.activities k ≠ none)
      (ha : m'.state.attempted = m.state.attempted)
      (hi : m'.state.initialAttempted = m.state.initialAttempted)
      (hr : m'.state.versionRejectedAttempt = m.state.versionRejectedAttempt)
      (hl : m'.state.lastAttempt = m.state.lastAttempt)
      (hp : m'.state.phase = .recovering → m.state.phase = .recovering)
  | started {n result w} (he : e = .observe n)
      (hcaller : m.callers n = some (.locking m.client.current result)) (hfree : m.lock = none)
      (ho : State.Observes setup m.state m.input m.client.now m.client.current result m'.state
        (some w))
      (hc : m'.client = m.client)
      (hact : m'.activities = Function.update m.activities m.nextActivity (some (.worker w)))
  | ended {k w result} (he : e = .workerEnd k) (hk : m.activities k = some (.worker w))
      (hr : w.result = some result) (hs : m'.state = m.state.ended m.client.current w result)
      (hc : m'.client = m.client) (hact : m'.activities = Function.update m.activities k none)
  | synced {k time follow g result followed} (he : e = .syncEnd k time)
      (hk : m.activities k = some (.sync ⟨follow, .finishing g result followed⟩))
      (hs : m'.state = m.state.synced g followed result m.client.current
        (m.client.queryError false).isNone m.client.sessionConfig time)
      (hc : m'.client = m.client) (hact : m'.activities = Function.update m.activities k none)
  | reloaded (h : Reloaded (⟨m, e, m'⟩ : Transition (ManagedClient I ρ) (Event I)))

theorem Step.markers (h : Step setup m e m') : Markers setup m e m' := by
  have heff := h.effect
  by_cases hend : ∃ k, e = .workerEnd k
  · obtain ⟨k, rfl⟩ := hend
    cases h with
    | refused he => cases he
    | workerEnd hk hr => exact .ended rfl hk hr rfl rfl rfl
  by_cases hsync : ∃ k time, e = .syncEnd k time
  · obtain ⟨k, time, rfl⟩ := hsync
    cases h with
    | refused he => cases he
    | syncEnd hk => exact .synced rfl hk rfl rfl rfl
  simp only [not_exists] at hend hsync
  have same : m'.activities = m.activities →
      ∀ k w, m'.activities k = some (.worker w) → m.activities k ≠ none := by
    intro ha k w hk
    rw [← ha, hk]
    exact Option.some_ne_none _
  have updated : ∀ {j : ℕ} {x : Option Activity}, m'.activities = Function.update m.activities j x →
      (∀ w, x = some (.worker w) → m.activities j ≠ none) →
        ∀ k w, m'.activities k = some (.worker w) → m.activities k ≠ none := by
    intro j x ha hx k w hk
    rw [ha, Function.update_apply] at hk
    split_ifs at hk with hkj
    · rw [hkj]
      exact hx w hk
    · rw [hk]
      exact Option.some_ne_none _
  cases heff with
  | quiet hs ha | status _ hs _ ha =>
    exact .kept hend hsync (same ha) (by rw [hs]) (by rw [hs]) (by rw [hs]) (by rw [hs])
      (by rw [hs]; exact id)
  | noted _ _ hphase hs _ ha =>
    refine .kept hend hsync (same ha) (by rw [hs]) (by rw [hs]) (by rw [hs]) (by rw [hs]) ?_
    rw [hs]
    exact fun hp => absurd hp (Phase.closed_eq_false.1 hphase).1
  | spawned he hcaller hfree ho hs hc ha => exact .started he hcaller hfree (hs ▸ ho) hc ha
  | wentOn _ hj hs ha =>
    exact .kept hend hsync (updated ha fun _ _ => hj ▸ Option.some_ne_none _) (by rw [hs])
      (by rw [hs]) (by rw [hs]) (by rw [hs]) (by rw [hs]; exact id)
  | workerEnded he => exact absurd he (hend _)
  | syncBegan _ _ _ hs _ ha | reloadBegan _ _ _ hs _ ha | reloadFailed _ _ hs _ ha =>
    exact .kept hend hsync (updated ha fun _ hw => (by cases hw)) (by rw [hs]) (by rw [hs])
      (by rw [hs]) (by rw [hs]) (by rw [hs]; exact id)
  | syncEnded he => exact absurd he (hsync _ _)
  | reloaded he hk => exact .reloaded ⟨_, he, hk⟩

/-! ### What happens to workers and syncs -/

/-- The worker `w` is started, as the activity `k`. -/
def Starts (t : Transition (ManagedClient I ρ) (Event I)) (k : ℕ) (w : Worker) : Prop :=
  t.before.activities k = none ∧ t.after.activities k = some (.worker w)

/-- A recovery worker is started on the generation `g`. -/
def StartsRecovery (t : Transition (ManagedClient I ρ) (Event I)) (g : ℕ) : Prop :=
  ∃ k w, Starts t k w ∧ w.initial = false ∧ w.generation = g

/-- A worker of the generation `g` finishes. -/
def Ends (t : Transition (ManagedClient I ρ) (Event I)) (g : ℕ) : Prop :=
  ∃ k w, t.event = .workerEnd k ∧ t.before.activities k = some (.worker w) ∧ w.generation = g

/-- A worker of the generation `g` finishes, refused for its client version. -/
def Refused (t : Transition (ManagedClient I ρ) (Event I)) (g : ℕ) : Prop :=
  ∃ k w error, t.event = .workerEnd k ∧ t.before.activities k = some (.worker w) ∧
    w.generation = g ∧ w.result = some (.error error) ∧ error.clientUpdateRequired = true

/-- A sync of the generation `g` ends that has adopted a client release. -/
def Adopts (t : Transition (ManagedClient I ρ) (Event I)) (g : ℕ) : Prop :=
  ∃ k time follow result followed, t.event = .syncEnd k time ∧
    t.before.activities k = some (.sync ⟨follow, .finishing g result (some followed)⟩) ∧
    State.changed result = true

variable {L : ℕ → ℕ → Prop} {a : ℕ}

/-- The worker of the lineage of `a` that has finished last was refused for its client version. -/
def RefusedLast (L : ℕ → ℕ → Prop) (a : ℕ)
    (ts : List (Transition (ManagedClient I ρ) (Event I))) : Prop :=
  ∃ before t after, ts = before ++ t :: after ∧ (∃ g, L a g ∧ Refused t g) ∧
    ∀ s ∈ after, ∀ g, L a g → ¬ Ends s g

/-- A client release was adopted on the lineage of `a` while the worker that had finished last on it
had been refused for its client version. -/
def Rearmed (L : ℕ → ℕ → Prop) (a : ℕ)
    (ts : List (Transition (ManagedClient I ρ) (Event I))) : Prop :=
  ∃ before t after, ts = before ++ t :: after ∧ RefusedLast L a before ∧ ∃ g, L a g ∧ Adopts t g

theorem Rearmed.append (h : Rearmed L a ts)
    (us : List (Transition (ManagedClient I ρ) (Event I))) : Rearmed L a (ts ++ us) := by
  obtain ⟨before, t, after, rfl, h⟩ := h
  exact ⟨before, t, after ++ us, by simp, h⟩

theorem RefusedLast.snoc (h : RefusedLast L a ts) {t : Transition (ManagedClient I ρ) (Event I)}
    (ht : ∀ g, ¬ Ends t g) : RefusedLast L a (ts ++ [t]) := by
  obtain ⟨before, r, after, rfl, hr, hafter⟩ := h
  refine ⟨before, r, after ++ [t], by simp, hr, fun s hs => ?_⟩
  rcases List.mem_append.1 hs with hs | hs
  · exact hafter s hs
  · obtain rfl := List.mem_singleton.1 hs
    exact fun g _ => ht g

/-- A worker is started by `observe` on the current generation, while nothing else runs. -/
theorem starts_cases (hs : Sound m) (hstep : Step setup m e m') {k : ℕ} {w : Worker}
    (h : Starts (⟨m, e, m'⟩ : Transition (ManagedClient I ρ) (Event I)) k w) :
    ∃ n result, e = .observe n ∧ m.callers n = some (.locking m.client.current result) ∧
      m.lock = none ∧
      State.Observes setup m.state m.input m.client.now m.client.current result m'.state (some w) ∧
      m'.client = m.client ∧ (∀ j, m.activities j = none) ∧
      m'.activities = Function.update m.activities k (some (.worker w)) := by
  obtain ⟨hnone, hsome⟩ := h
  dsimp only at hnone hsome
  cases hstep.markers with
  | kept _ _ hworker => exact absurd hnone (hworker k w hsome)
  | @started n result w' he hcaller hfree ho hc hact =>
    rw [hact, Function.update_apply] at hsome
    split_ifs at hsome with hk
    · cases hsome
      obtain ⟨hopen, hidle⟩ := ho.idle
      exact ⟨n, result, he, hcaller, hfree, ho, hc,
        hs.exclusive.idle hfree (Phase.closed_eq_false.1 hopen).1 hidle, hk ▸ hact⟩
    · rw [hnone] at hsome
      cases hsome
  | ended _ _ _ _ _ hact | synced _ _ _ _ hact =>
    rw [hact, Function.update_apply] at hsome
    split_ifs at hsome
    rw [hnone] at hsome
    cases hsome
  | reloaded hr =>
    obtain ⟨j, he, hj⟩ := hr
    dsimp only at he hj
    subst he
    cases hstep with
    | refused he => cases he
    | reloadEndFailed hj' => rw [hj] at hj'; cases hj'
    | reloadEnd =>
      by_cases hkj : k = j
      · subst hkj
        simp at hsome
      · simp [hkj, hnone] at hsome

/-! ### One step of the budget -/

/-- The marker of a refused client version is cleared while a worker runs. -/
def Unrefused (m : ManagedClient I ρ) : Prop :=
  m.state.phase = .recovering → m.state.versionRejectedAttempt = none

theorem Unrefused.of_branch (h : Unrefused m) (hstep : Step setup m e m') : Unrefused m' := by
  intro hp
  cases hstep.markers with
  | kept _ _ _ _ _ hr _ hphase => exact hr.trans (h (hphase hp))
  | started _ _ _ ho =>
    generalize m'.state = s at ho
    cases ho <;> rfl
  | @ended _ w result _ _ _ hs =>
    rw [hs] at hp
    exact absurd hp (m.state.ended_phase_ne_recovering m.client.current w result)
  | @synced _ time _ g result followed _ _ hs =>
    rw [hs] at hp ⊢
    rcases m.state.synced_phase g m.client.current time followed result
      (m.client.queryError false).isNone m.client.sessionConfig with hs' | hs'
    · rw [State.synced_versionRejectedAttempt, h (hs' ▸ hp)]
      split_ifs <;> rfl
    · rw [hs'] at hp
      cases hp
  | reloaded hr =>
    obtain ⟨k, he, hk⟩ := hr
    dsimp only at he hk
    subst he
    cases hstep with
    | refused he => cases he
    | reloadEndFailed hk' => rw [hk] at hk'; cases hk'
    | reloadEnd => cases hp

/-- The session is replaced otherwise than by a version update, and begins a lineage of its own. -/
def Renews (t : Transition (ManagedClient I ρ) (Event I)) : Prop :=
  t.after.client.current = t.before.client.current + 1 ∧ ∀ a b, ¬ VersionUpdate t a b

/-- The markers go over from the generation `g` to the generation `g'`, or stay where they are. -/
structure Carries (t : Transition (ManagedClient I ρ) (Event I)) (g g' : ℕ) : Prop where
  next : g' = g ∨ g' = g + 1
  budget : t.before.state.attempted = some g → t.after.state.attempted = some g' ∨
    Adopts t g ∧ t.before.state.versionRejectedAttempt = some g
  refused : ∀ x, t.after.state.versionRejectedAttempt = some x → x = g' ∧ Refused t g' ∨
    (∀ i, ¬ Ends t i) ∧ (t.before.state.versionRejectedAttempt = some x ∨
      x = g' ∧ t.before.state.versionRejectedAttempt = some g)

theorem not_ends (he : ∀ k, e ≠ .workerEnd k) (g : ℕ) :
    ¬ Ends (⟨m, e, m'⟩ : Transition (ManagedClient I ρ) (Event I)) g := by
  rintro ⟨k, w, he', -⟩
  exact he k he'

/-- The end of a sync carries the markers from the generation that the sync has read to that of the
session. -/
theorem carries_of_sync (ht : Tracked m) {k time g : ℕ} {follow : Bool}
    {result : Except ClientError Outcome} {followed : Option (String × String)}
    (hk : m.activities k = some (.sync ⟨follow, .finishing g result followed⟩))
    (hs : m'.state = m.state.synced g followed result m.client.current
      (m.client.queryError false).isNone m.client.sessionConfig time) :
    Carries (⟨m, .syncEnd k time, m'⟩ : Transition (ManagedClient I ρ) (Event I)) g
      m.client.current := by
  have hcur := ht k _ g hk rfl
  refine ⟨hcur.imp_right And.left, fun ha => ?_, fun x hx => ?_⟩
  · dsimp only at ha ⊢
    rw [hs, State.synced_attempted, ha, State.carry_self]
    by_cases hch : State.changed result = true
    · rw [if_pos hch]
      by_cases hr : m.state.rearms g followed = true
      · obtain ⟨hf, hv⟩ := (State.rearms_iff _ _ _).1 hr
        obtain ⟨pair, rfl⟩ := Option.isSome_iff_exists.1 hf
        exact .inr ⟨⟨k, time, follow, result, pair, rfl, hk, hch⟩, hv⟩
      · exact .inl (if_neg hr)
    · rw [if_neg hch]
      -- a sync that has not changed the versions has not replaced the session
      rcases hcur with hcur | ⟨-, ⟨hw, -⟩ | ⟨_, _, hf⟩⟩
      · exact .inl (congrArg some hcur.symm)
      · cases hw
      · cases hf
        exact absurd rfl hch
  · refine .inr ⟨not_ends (by simp), ?_⟩
    dsimp only at hx ⊢
    rw [hs, State.synced_versionRejectedAttempt] at hx
    split_ifs at hx
    · exact State.carry_eq_some _ _ hx
    · exact .inl hx

/-- What an event other than a reload does to the budget of the generation that the markers refer
to. -/
theorem carries_of_step (hs : Sound m) (ht : Tracked m) (hu : Unrefused m)
    (hstep : Step setup m e m')
    (hno : ¬ Reloaded (⟨m, e, m'⟩ : Transition (ManagedClient I ρ) (Event I))) {g' : ℕ}
    (hg : Reference m' g') :
    ∃ g, Reference m g ∧
      (Carries (⟨m, e, m'⟩ : Transition (ManagedClient I ρ) (Event I)) g g' ∨
        Renews (⟨m, e, m'⟩ : Transition (ManagedClient I ρ) (Event I)) ∧ g = m.client.current ∧
          g' = g + 1 ∧ m'.state.versionRejectedAttempt = m.state.versionRejectedAttempt) := by
  cases hstep.markers with
  | kept hend hsync _ ha _ hr =>
    rcases reference_of_step hs hstep hg with hg | ⟨k, time, _, _, _, _, he, _⟩ |
      ⟨hcur, rfl, hnext, hno⟩
    · exact ⟨g', hg, .inl ⟨.inl rfl, fun h => .inl (ha.trans h),
        fun x hx => .inr ⟨not_ends hend, .inl (hr.symm.trans hx)⟩⟩⟩
    · exact absurd he (hsync k time)
    · exact ⟨_, hcur, .inr ⟨⟨hnext, hno⟩, rfl, hnext, hr⟩⟩
  | @started n result w he hcaller hfree ho hc =>
    rcases reference_of_step hs hstep hg with hg | ⟨_, _, _, _, _, _, he', _⟩ | ⟨-, -, hnext, -⟩
    · -- nothing runs, and the markers refer to the session
      obtain ⟨hopen, hidle⟩ := ho.idle
      have hnone := hs.exclusive.idle hfree (Phase.closed_eq_false.1 hopen).1 hidle
      obtain rfl := reference_eq (fun x ⟨k, _, hk, _⟩ => by simp [hnone k] at hk) hg
      refine ⟨_, hg, .inl ⟨.inl rfl, fun h => .inl ?_, fun x hx => ?_⟩⟩
      all_goals
        dsimp only at *
        generalize m'.state = s at *
        cases ho
      · exact h
      · rfl
      · cases hx
      · cases hx
    · rw [he] at he'
      cases he'
    · rw [hc] at hnext
      omega
  | @ended k w result he hk hr hstate hc =>
    rcases reference_of_step hs hstep hg with hg | ⟨_, _, _, _, _, _, he', _⟩ | ⟨-, -, hnext, -⟩
    · obtain rfl := reference_eq (not_captures_of_activity hs hk (by simp [Activity.kind])) hg
      have hnone := hu (hs.exclusive.recovering.2 ⟨k, _, hk, rfl⟩)
      refine ⟨_, hg, .inl ⟨.inl rfl, fun h => .inl ?_, fun x hx => .inl ?_⟩⟩
      · exact (congrArg State.attempted hstate).trans ((State.ended_attempted ..).trans h)
      · dsimp only at hx
        rcases m.state.ended_versionRejectedAttempt m.client.current w result with
          hv | ⟨error, rfl, hcode, hgen, hv⟩
        · rw [hstate, hv, hnone] at hx
          cases hx
        · rw [hstate, hv] at hx
          obtain rfl := Option.some.inj hx
          exact ⟨hgen.symm, k, w, error, he, hk, hgen.symm, hr, hcode⟩
    · rw [he] at he'
      cases he'
    · rw [hc] at hnext
      omega
  | @synced k time follow g result followed he hk hstate hc hact =>
    subst he
    have hnone : ∀ x, ¬ Captures m' x := by
      rintro x ⟨j, s, hj, -⟩
      rw [hact, Function.update_apply] at hj
      split_ifs at hj with hjk
      exact hjk (hs.exclusive.unique j k (by simp [hj]) (by simp [hk]))
    obtain rfl := reference_eq hnone hg
    rw [hc]
    exact ⟨g, .inl ⟨k, _, hk, rfl⟩, .inl (carries_of_sync ht hk hstate)⟩
  | reloaded hr => exact absurd hr hno

/-! ### The lineage after its first recovery worker -/

/-- The lineage of `a` has had a recovery worker; `ts` is what has happened since. -/
structure Spent (L : ℕ → ℕ → Prop) (a : ℕ) (ts : List (Transition (ManagedClient I ρ) (Event I)))
    (m : ManagedClient I ρ) : Prop where
  root : ∀ g, Reference m g → a ≤ g
  budget : ∀ g, Reference m g → L a g → m.state.attempted = some g ∨ Rearmed L a ts
  refused : ∀ g, Reference m g → L a g → m.state.versionRejectedAttempt = some g →
    RefusedLast L a ts
  rejected : ∀ g, Reference m g → ∀ x, m.state.versionRejectedAttempt = some x → x ≤ g

/-- After the start of a worker the markers refer to the session. -/
theorem reference_of_start (hs : Sound m) (hstep : Step setup m e m') {k : ℕ} {w : Worker}
    (h : Starts (⟨m, e, m'⟩ : Transition (ManagedClient I ρ) (Event I)) k w) {g : ℕ}
    (hg : Reference m' g) : g = m.client.current := by
  obtain ⟨n, result, -, -, -, -, hc, hnone, hact⟩ := starts_cases hs hstep h
  rcases hg with ⟨j, s, hj, -⟩ | ⟨-, hg⟩
  · -- the worker is the only activity
    rw [hact, Function.update_apply] at hj
    split_ifs at hj
    · cases hj
    · rw [hnone] at hj
      cases hj
  · rw [← hg, hc]

/-- The start of a recovery worker sets the markers of the session. -/
theorem markers_of_start (hs : Sound m) (hstep : Step setup m e m') {g : ℕ}
    (h : StartsRecovery (⟨m, e, m'⟩ : Transition (ManagedClient I ρ) (Event I)) g) :
    m.client.current = g ∧ m'.client = m.client ∧ (∀ x, Reference m' x → x = g) ∧
      m'.state.attempted = some g ∧ m'.state.versionRejectedAttempt = none ∧
      m'.state.lastAttempt = some m.client.now := by
  obtain ⟨k, w, hw, hi, rfl⟩ := h
  obtain ⟨n, result, -, -, -, ho, hc, -⟩ := starts_cases hs hstep hw
  have hgen : w.generation = m.client.current := by rw [ho.eq_spawned]; rfl
  refine ⟨hgen.symm, hc, fun g hg => (reference_of_start hs hstep hw hg).trans hgen.symm, ?_⟩
  rw [hgen]
  generalize m'.state = s at ho
  cases ho with
  | initial => cases hi
  | recovery => exact ⟨rfl, rfl, rfl⟩

theorem spent_of_start (hs : Sound m) (hstep : Step setup m e m') {g : ℕ}
    (h : StartsRecovery (⟨m, e, m'⟩ : Transition (ManagedClient I ρ) (Event I)) g) (hag : a ≤ g) :
    Spent L a [] m' := by
  obtain ⟨-, -, href, hattempted, hrejected, -⟩ := markers_of_start hs hstep h
  refine ⟨fun x hx => ?_, fun x hx _ => .inl ?_, fun x hx _ hv => ?_, fun x hx y hv => ?_⟩
  · rw [href x hx]
    exact hag
  · rw [href x hx]
    exact hattempted
  · rw [hrejected] at hv
    cases hv
  · rw [hrejected] at hv
    cases hv

/-- The state in which the markers of recovery attempts are what they should be. -/
structure Kept (m : ManagedClient I ρ) : Prop where
  sound : Sound m
  tracked : Tracked m
  unrefused : Unrefused m

theorem kept_of_run [DecidableEq ρ] (hrun : Run (step setup) m ts m') (h : Kept m) : Kept m' := by
  refine ⟨sound_of_run hrun h.sound, tracked_of_run hrun h.sound h.tracked, ?_⟩
  exact hrun.invariant (fun _ _ _ h hstep => h.of_branch (Step.of_step hstep)) h.unrefused

theorem kept_initial {client : Client Task} (hops : ∀ task, client.ops task = none) (input : I) :
    Kept (initial client input : ManagedClient I ρ) :=
  ⟨sound_initial hops input, tracked_initial client input, fun _ => rfl⟩

theorem Spent.step (h : Spent L a ts m) (hk : Kept m) (hstep : Step setup m e m')
    (hno : ¬ Reloaded (⟨m, e, m'⟩ : Transition (ManagedClient I ρ) (Event I)))
    (hpred : ∀ c, L a (c + 1) → a ≤ c → L a c)
    (hnew : Renews (⟨m, e, m'⟩ : Transition (ManagedClient I ρ) (Event I)) →
      a ≤ m.client.current → ¬ L a m'.client.current) :
    Spent L a (ts ++ [⟨m, e, m'⟩]) m' := by
  -- where the markers referred to before
  have back : ∀ {g'}, Reference m' g' → ∃ g, Reference m g ∧ a ≤ g ∧
      (Carries (⟨m, e, m'⟩ : Transition (ManagedClient I ρ) (Event I)) g g' ∧ (L a g' → L a g) ∨
        g ≤ g' ∧ ¬ L a g' ∧
          m'.state.versionRejectedAttempt = m.state.versionRejectedAttempt) := by
    intro g' hg'
    obtain ⟨g, hg, hcarry | ⟨hrenews, rfl, rfl, hv⟩⟩ :=
      carries_of_step hk.sound hk.tracked hk.unrefused hstep hno hg'
    · refine ⟨g, hg, h.root g hg, .inl ⟨hcarry, fun hL => ?_⟩⟩
      rcases hcarry.next with rfl | rfl
      · exact hL
      · exact hpred g hL (h.root g hg)
    · have hroot := h.root _ hg
      refine ⟨_, hg, hroot, .inr ⟨Nat.le_succ _, fun hL => hnew hrenews hroot ?_, hv⟩⟩
      have hcur : m'.client.current = m.client.current + 1 := hrenews.1
      rw [hcur]
      exact hL
  refine ⟨fun g' hg' => ?_, fun g' hg' hL => ?_, fun g' hg' hL hv => ?_, fun g' hg' x hv => ?_⟩
  all_goals obtain ⟨g, hg, hag, ⟨hcarry, hback⟩ | ⟨hle, hnot, hsame⟩⟩ := back hg'
  · rcases hcarry.next with rfl | rfl <;> omega
  · exact hag.trans hle
  · rcases h.budget g hg (hback hL) with hspent | hrearmed
    · rcases hcarry.budget hspent with hspent' | ⟨hadopts, hrejected⟩
      · exact .inl hspent'
      · exact .inr ⟨ts, _, [], rfl, h.refused g hg (hback hL) hrejected, g, hback hL, hadopts⟩
    · exact .inr (hrearmed.append _)
  · exact absurd hL hnot
  · rcases hcarry.refused g' hv with ⟨-, hrefused⟩ | ⟨hends, hv' | ⟨-, hv'⟩⟩
    · exact ⟨ts, _, [], rfl, ⟨g', hL, hrefused⟩, by simp⟩
    · -- the marker is never ahead of the generation that it refers to
      obtain rfl : g' = g := by
        have := h.rejected g hg g' hv'
        have := hcarry.next
        omega
      exact (h.refused g' hg hL hv').snoc hends
    · exact (h.refused g hg (hback hL) hv').snoc hends
  · exact absurd hL hnot
  · rcases hcarry.refused x hv with ⟨rfl, -⟩ | ⟨-, hv' | ⟨rfl, -⟩⟩
    · exact le_rfl
    · have := h.rejected g hg x hv'
      have := hcarry.next
      omega
    · exact le_rfl
  · exact (h.rejected g hg x (hsame ▸ hv)).trans hle

theorem spent_of_run [DecidableEq ρ] (hrun : Run (step setup) m ts m') (hk : Kept m)
    (h : Spent L a [] m) (hno : ∀ t ∈ ts, ¬ Reloaded t)
    (hpred : ∀ c, L a (c + 1) → a ≤ c → L a c)
    (hnew : ∀ t ∈ ts, Renews t → a ≤ t.before.client.current → ¬ L a t.after.client.current) :
    Spent L a ts m' := by
  induction hrun with
  | nil => exact h
  | snoc hrun hstep ih =>
    exact (ih (fun t ht => hno t (List.mem_append_left _ ht)) fun t ht =>
      hnew t (List.mem_append_left _ ht)).step (kept_of_run hrun hk) (Step.of_step hstep)
      (hno _ (List.mem_append_right _ (List.mem_singleton_self _))) hpred
      (hnew _ (List.mem_append_right _ (List.mem_singleton_self _)))

/-! ### The cooldown -/

theorem now_le_of_step (hstep : Step setup m e m') : m.client.now ≤ m'.client.now := by
  cases hstep.clientEffect with
  | same hc => rw [hc]
  | step _ hc => exact Client.now_le_of_step hc

/-- The last recovery worker was started at `first` or later. -/
def Cooling (first : ℕ) (m : ManagedClient I ρ) : Prop :=
  ∃ last, m.state.lastAttempt = some last ∧ first ≤ last ∧ last ≤ m.client.now

/-- Only the start of a recovery worker and a reload touch the time of the last attempt. -/
theorem lastAttempt_of_step (hs : Sound m) (hstep : Step setup m e m')
    (hno : ¬ Reloaded (⟨m, e, m'⟩ : Transition (ManagedClient I ρ) (Event I))) :
    m'.state.lastAttempt = m.state.lastAttempt ∨ m'.state.lastAttempt = some m.client.now ∧
      StartsRecovery (⟨m, e, m'⟩ : Transition (ManagedClient I ρ) (Event I)) m.client.current := by
  cases hstep.markers with
  | kept _ _ _ _ _ _ hl => exact .inl hl
  | @started n result w _ _ _ ho _ hact =>
    have hstarts : Starts (⟨m, e, m'⟩ : Transition (ManagedClient I ρ) (Event I)) m.nextActivity w :=
      ⟨hs.exclusive.fresh _ le_rfl, by rw [hact, Function.update_self]⟩
    generalize hstate : m'.state = s at ho
    cases ho with
    | initial => exact .inl rfl
    | recovery => exact .inr ⟨rfl, _, _, hstarts, rfl, rfl⟩
  | ended _ _ _ hs => exact .inl (by rw [hs, State.ended_lastAttempt])
  | synced _ _ hs => exact .inl (by rw [hs, State.synced_lastAttempt])
  | reloaded hr => exact absurd hr hno

theorem cooling_of_run [DecidableEq ρ] {first : ℕ} (hrun : Run (step setup) m ts m')
    (hs : Sound m) (h : Cooling first m) (hno : ∀ t ∈ ts, ¬ Reloaded t) : Cooling first m' := by
  induction hrun with
  | nil => exact h
  | snoc hrun hstep ih =>
    obtain ⟨last, hl, hfirst, hlast⟩ := ih fun t ht => hno t (List.mem_append_left _ ht)
    have hle := now_le_of_step (Step.of_step hstep)
    rcases lastAttempt_of_step (sound_of_run hrun hs) (Step.of_step hstep)
      (hno _ (List.mem_append_right _ (List.mem_singleton_self _))) with hl' | ⟨hl', -⟩
    · exact ⟨last, hl'.trans hl, hfirst, hlast.trans hle⟩
    · exact ⟨_, hl', hfirst.trans hlast, hle⟩

/-! ### The budget over runs -/

/-- The recovery of the generation that the markers refer to has been spent. -/
def Spends (m : ManagedClient I ρ) : Prop := ∃ g, Reference m g ∧ m.state.attempted = some g

/-- What makes a spent budget available again. -/
inductive Restores (t : Transition (ManagedClient I ρ) (Event I)) : Prop
  | reloaded (h : Reloaded t)
  | renewed (h : Renews t)
  | rearmed {g} (h : Adopts t g) (hr : t.before.state.versionRejectedAttempt = some g)

/-- Only a reload, a session of another lineage and an adopted release restore the budget. -/
theorem restores_of_step (hk : Kept m) (hstep : Step setup m e m') (h : Spends m)
    (h' : ¬ Spends m') : Restores (⟨m, e, m'⟩ : Transition (ManagedClient I ρ) (Event I)) := by
  by_contra hno
  obtain ⟨g', hg'⟩ := reference_exists m'
  obtain ⟨x, hx, ha⟩ := h
  obtain ⟨g, hg, hcarry | ⟨hrenews, -⟩⟩ :=
    carries_of_step hk.sound hk.tracked hk.unrefused hstep (fun hr => hno (.reloaded hr)) hg'
  · obtain rfl := hg.unique hk.sound hx
    rcases hcarry.budget ha with ha' | ⟨hadopts, hv⟩
    · exact h' ⟨g', hg', ha'⟩
    · exact hno (.rearmed hadopts hv)
  · exact hno (.renewed hrenews)

/-- Two recovery workers of one lineage, without a reload between them. -/
theorem rearmed_of_starts [DecidableEq ρ] {between after : List (Transition (ManagedClient I ρ)
    (Event I))} {t₁ t₂ : Transition (ManagedClient I ρ) (Event I)} {g₁ g₂ root : ℕ}
    (hk : Kept m) (hrun : Run (step setup) m (ts ++ t₁ :: between ++ t₂ :: after) m')
    (h₁ : StartsRecovery t₁ g₁) (h₂ : StartsRecovery t₂ g₂) (hno : ∀ t ∈ between, ¬ Reloaded t)
    (hl₁ : Lineage (ts ++ t₁ :: between ++ t₂ :: after) root g₁)
    (hl₂ : Lineage (ts ++ t₁ :: between ++ t₂ :: after) root g₂) :
    Rearmed (Lineage (ts ++ t₁ :: between ++ t₂ :: after)) root between := by
  obtain ⟨hhead, hstep₂, -⟩ := hrun.around
  obtain ⟨hbefore, hstep₁, hbetween⟩ := hhead.around
  have hk₁ := kept_of_run hbefore hk
  have hk₁' := kept_of_run (Run.single hstep₁) hk₁
  have hk₂ := kept_of_run hbetween hk₁'
  have hspent : Spent (Lineage (ts ++ t₁ :: between ++ t₂ :: after)) root [] t₁.after :=
    spent_of_start hk₁.sound (Step.of_step hstep₁) h₁ (hl₁.le (update_succ hrun hk.sound))
  have hspent₂ := spent_of_run hbetween hk₁' hspent hno
    (fun c hc hle => (Descends.pred hc (update_succ hrun hk.sound) hle).1) fun t ht hnew hle => by
      obtain ⟨x, y, rfl⟩ := List.append_of_mem ht
      have hsplit : ts ++ t₁ :: (x ++ t :: y) ++ t₂ :: after =
          (ts ++ t₁ :: x) ++ t :: (y ++ t₂ :: after) := by simp
      rw [hsplit] at hrun ⊢
      exact not_lineage_of_install hrun hk.sound hnew.2 hnew.1 hle
  obtain ⟨k, w, hw, hi, rfl⟩ := h₂
  obtain ⟨n, result, -, -, -, ho, -, hnone, -⟩ := starts_cases hk₂.sound (Step.of_step hstep₂) hw
  have hgen : w.generation = t₂.before.client.current := by rw [ho.eq_spawned]; rfl
  rw [hgen] at hl₂
  refine (hspent₂.budget _ (reference_of_idle fun j s hj => ?_) hl₂).resolve_left ?_
  · rw [hnone] at hj
    cases hj
  · generalize t₂.after.state = s at ho
    cases ho with
    | initial => cases hi
    | recovery _ _ _ _ hnew => exact hnew

/-- Two recovery workers without a reload between them. -/
theorem cooldown_of_starts [DecidableEq ρ] {between after : List (Transition (ManagedClient I ρ)
    (Event I))} {t₁ t₂ : Transition (ManagedClient I ρ) (Event I)} {g₁ g₂ : ℕ}
    (hk : Kept m) (hrun : Run (step setup) m (ts ++ t₁ :: between ++ t₂ :: after) m')
    (h₁ : StartsRecovery t₁ g₁) (h₂ : StartsRecovery t₂ g₂) (hno : ∀ t ∈ between, ¬ Reloaded t) :
    t₁.before.client.now + setup.cooldown ≤ t₂.before.client.now := by
  obtain ⟨hhead, hstep₂, -⟩ := hrun.around
  obtain ⟨hbefore, hstep₁, hbetween⟩ := hhead.around
  have hk₁ := kept_of_run hbefore hk
  have hk₁' := kept_of_run (Run.single hstep₁) hk₁
  have hk₂ := kept_of_run hbetween hk₁'
  obtain ⟨-, hc, -, -, -, hlast⟩ := markers_of_start hk₁.sound (Step.of_step hstep₁) h₁
  obtain ⟨last, hl, hfirst, hle⟩ := cooling_of_run hbetween hk₁'.sound
    ⟨_, hlast, le_rfl, by rw [hc]⟩ hno
  obtain ⟨k, w, hw, hi, rfl⟩ := h₂
  obtain ⟨n, result, -, -, -, ho, -⟩ := starts_cases hk₂.sound (Step.of_step hstep₂) hw
  generalize t₂.after.state = s at ho
  cases ho with
  | initial => cases hi
  | recovery _ _ _ _ _ hcool =>
    have := hcool last hl
    omega

/-- **The recovery budget.**  In every run of a managed client, between two successful reloads: two
recovery workers are at least the cooldown apart, and two of them are started on one lineage only if,
in between, a client release was adopted on it while its last finished worker had been refused for its
client version.  Nothing but a reload, a session of another lineage and such an adoption makes a spent
budget available again, and nothing but a reload and the start of a recovery worker touches the
cooldown. -/
theorem recovery_budget [DecidableEq ρ] {config : SessionConfig}
    {provider : Option StaticCredentials} {transport : Transport} {now : ℕ} {client : Client Task}
    {input : I} {ts : List (Transition (ManagedClient I ρ) (Event I))}
    (hclient : Client.withTransport setup.lib setup.options config provider transport now =
      .ok client)
    (hrun : Run (step setup) (initial client input) ts m) :
    (∀ (before between after : List (Transition (ManagedClient I ρ) (Event I)))
      (t₁ t₂ : Transition (ManagedClient I ρ) (Event I)) (g₁ g₂ : ℕ),
      ts = before ++ t₁ :: between ++ t₂ :: after → StartsRecovery t₁ g₁ →
      StartsRecovery t₂ g₂ → (∀ t ∈ between, ¬ Reloaded t) →
        t₁.before.client.now + setup.cooldown ≤ t₂.before.client.now ∧
        ∀ root, Lineage ts root g₁ → Lineage ts root g₂ → Rearmed (Lineage ts) root between) ∧
    (∀ t ∈ ts, Spends t.before → ¬ Spends t.after → Restores t) ∧
    (∀ t ∈ ts, t.after.state.lastAttempt ≠ t.before.state.lastAttempt →
      Reloaded t ∨ StartsRecovery t t.before.client.current) := by
  have hk : Kept (initial client input : ManagedClient I ρ) := by
    obtain ⟨session, -, rfl⟩ := Client.withTransport_ok hclient
    exact kept_initial (fun _ => rfl) input
  refine ⟨?_, fun t ht h h' => ?_, fun t ht hne => ?_⟩
  · rintro before between after t₁ t₂ g₁ g₂ rfl h₁ h₂ hno
    exact ⟨cooldown_of_starts hk hrun h₁ h₂ hno,
      fun root hl₁ hl₂ => rearmed_of_starts hk hrun h₁ h₂ hno hl₁ hl₂⟩
  · obtain ⟨before, after, rfl⟩ := List.append_of_mem ht
    obtain ⟨hbefore, hstep, -⟩ := hrun.around
    exact restores_of_step (kept_of_run hbefore hk) (Step.of_step hstep) h h'
  · obtain ⟨before, after, rfl⟩ := List.append_of_mem ht
    obtain ⟨hbefore, hstep, -⟩ := hrun.around
    by_contra hno
    rw [not_or] at hno
    rcases lastAttempt_of_step (kept_of_run hbefore hk).sound (Step.of_step hstep) hno.1 with
      hl | ⟨-, hl⟩
    · exact hne hl
    · exact hno.2 hl

/-! ### A worker between the adoption and the next recovery -/

/-- The worker of the lineage of `a` that has finished last was refused for its client version, and a
client release was adopted on the lineage after that. -/
def Excused (L : ℕ → ℕ → Prop) (a : ℕ) (ts : List (Transition (ManagedClient I ρ) (Event I))) :
    Prop :=
  ∃ before t after, ts = before ++ t :: after ∧ (∃ g, L a g ∧ Refused t g) ∧
    (∀ s ∈ after, ∀ g, L a g → ¬ Ends s g) ∧ ∃ s ∈ after, ∃ g, L a g ∧ Adopts s g

/-- The last worker of the lineage ended otherwise. -/
theorem not_excused {before after : List (Transition (ManagedClient I ρ) (Event I))}
    {t : Transition (ManagedClient I ρ) (Event I)} {g : ℕ} (hg : L a g) (ht : Ends t g)
    (hnot : ∀ g, ¬ Refused t g) (hafter : ∀ s ∈ after, ∀ g, ¬ Refused s g) :
    ¬ Excused L a (before ++ t :: after) := by
  rintro ⟨x, s, y, hsplit, ⟨g', -, hs⟩, hy, -⟩
  rcases List.append_eq_append_iff.1 hsplit with ⟨l, -, hl⟩ | ⟨l, rfl, hl⟩
  · cases l with
    | nil =>
      obtain ⟨rfl, -⟩ := List.cons.inj hl
      exact hnot g' hs
    | cons c l =>
      obtain ⟨-, rfl⟩ := List.cons.inj hl
      exact hafter s (by simp) g' hs
  · cases l with
    | nil =>
      obtain ⟨rfl, -⟩ := List.cons.inj hl
      exact hnot g' hs
    | cons c l =>
      obtain ⟨-, rfl⟩ := List.cons.inj hl
      exact hy t (by simp) g hg ht

section Sample

/-- The sample client with a saved session, before it observes that its token is rejected.  The
caller 0 has read the error of the session before that one. -/
def staleEvents : List (Event ℕ) :=
  [.queryError 0 false, .readError 0] ++ queryEvents 1 0 ++ observeEvents 1 ++
  [.workerConfig 0, .workerReplace 0 sampleProvider, .workerReturn 0 (.ok ()), .workerEnd 0] ++
  queryEvents 2 1 ++ startEvents (.caller 2) ++
  [.client (.answer (.caller 2) (.error (.ofCode "TOKEN_ILLEGAL"))), .returned 2, .check 2]

def staleClient : ManagedClient ℕ ℕ := (exec sampleStep sampleManaged staleEvents).get (by decide +kernel)

/-- The first recovery. -/
def firstRecovery : Transition (ManagedClient ℕ ℕ) (Event ℕ) :=
  transitionOf sampleStep staleClient (.observe 2) (by decide +kernel)

/-- The recovery is refused for its client version, and a version sync finds another one. -/
def refusedEvents : List (Event ℕ) :=
  [.workerCall 1 (.preLogin 1 ⟨"global", "https://game.example", ⟨"uid", "access", none⟩⟩
    ⟨"model", "system", "device", 1, 1, 1⟩) "request"] ++ startEvents (.writer 1) ++
  [.client (.answer (.writer 1) (.error (.ofCode "CLIENT_UPDATE_REQUIRED"))), .workerTake 1,
    .workerReturn 1 (.error (.ofCode "CLIENT_UPDATE_REQUIRED")), .workerEnd 1,
    .syncBegin true, .syncGeneration 2, .syncRefresh 2 "request"] ++ startEvents (.writer 2) ++
  [.client (.answer (.writer 2) (.error (.ofCode "CLIENT_UPDATE_REQUIRED"))), .syncTake 2,
    .syncCandidates 2, .syncAdopt 2 "request"] ++ startEvents (.writer 2) ++
  [.client (.answer (.writer 2) (.ok ⟨.version "5" "6", none⟩)), .client (.check (.writer 2))]

def refusedClient : ManagedClient ℕ ℕ := 
  (exec sampleStep firstRecovery.after refusedEvents).get (by decide +kernel)

/-- The version update of the sync. -/
def sampleUpdate : Transition (ManagedClient ℕ ℕ) (Event ℕ) :=
  transitionOf sampleStep refusedClient (.client (.finish (.writer 2) ⟨true, true⟩)) (by decide +kernel)

/-- The sync ends and rearms the recovery.  Then the caller 0 reads the new generation, and its stale
error starts an initial load, which fails. -/
def staleLoadEvents : List (Event ℕ) :=
  [.syncTake 2, .syncEnd 2 0, .readGeneration 0, .check 0, .observe 0,
    .workerReturn 3 (.error (.new .sessionChanged))]

def staleLoadClient : ManagedClient ℕ ℕ :=
  (exec sampleStep sampleUpdate.after staleLoadEvents).get (by decide +kernel)

/-- The end of that load. -/
def staleLoadEnd : Transition (ManagedClient ℕ ℕ) (Event ℕ) :=
  transitionOf sampleStep staleLoadClient (.workerEnd 3) (by decide +kernel)

/-- After the cooldown the token is rejected once more. -/
def rejectedEvents : List (Event ℕ) :=
  .client (.advance 60) :: queryEvents 3 2 ++ startEvents (.caller 3) ++
  [.client (.answer (.caller 3) (.error (.ofCode "TOKEN_ILLEGAL"))), .returned 3, .check 3]

def rejectedClient : ManagedClient ℕ ℕ := 
  (exec sampleStep staleLoadEnd.after rejectedEvents).get (by decide +kernel)

/-- The second recovery. -/
def secondRecovery : Transition (ManagedClient ℕ ℕ) (Event ℕ) :=
  transitionOf sampleStep rejectedClient (.observe 3) (by decide +kernel)

/-- The run between the two recoveries. -/
def betweenRun : List (Transition (ManagedClient ℕ ℕ) (Event ℕ)) :=
  transitions sampleStep firstRecovery.after refusedEvents ++ sampleUpdate ::
    transitions sampleStep sampleUpdate.after staleLoadEvents ++ staleLoadEnd ::
    transitions sampleStep staleLoadEnd.after rejectedEvents

def sampleRun : List (Transition (ManagedClient ℕ ℕ) (Event ℕ)) :=
  transitions sampleStep sampleManaged staleEvents ++ firstRecovery :: betweenRun ++
    secondRecovery :: []

theorem run_sampleRun : Run sampleStep sampleManaged sampleRun secondRecovery.after := by
  have h₁ : Run sampleStep sampleManaged _ staleClient := run_get staleEvents (by decide +kernel)
  have h₂ : Run sampleStep firstRecovery.after _ refusedClient :=
    run_get refusedEvents (by decide +kernel)
  have h₃ : Run sampleStep sampleUpdate.after _ staleLoadClient :=
    run_get staleLoadEvents (by decide +kernel)
  have h₄ : Run sampleStep staleLoadEnd.after _ rejectedClient :=
    run_get rejectedEvents (by decide +kernel)
  have hbetween : Run sampleStep firstRecovery.after betweenRun rejectedClient :=
    (h₂.append (run_transitionOf h₃)).append (run_transitionOf h₄)
  exact (h₁.append (run_transitionOf hbetween)).append (run_transitionOf .nil)

/-- Whether an activity is a recovery worker of the generation `g`. -/
def isRecoveryOf (g : ℕ) : Option Activity → Bool
  | some (.worker w) => w.initial = false && w.generation = g
  | _ => false

theorem startsRecovery_of_check {t : Transition (ManagedClient I ρ) (Event I)} {k g : ℕ}
    (hnone : (t.before.activities k).isNone = true)
    (h : isRecoveryOf g (t.after.activities k) = true) : StartsRecovery t g := by
  rw [Option.isNone_iff_eq_none] at hnone
  cases ha : t.after.activities k with
  | none => simp [ha, isRecoveryOf] at h
  | some a =>
    cases a with
    | worker w =>
      simp only [ha, isRecoveryOf, Bool.and_eq_true, decide_eq_true_eq] at h
      exact ⟨k, w, ⟨hnone, ha⟩, h.1, h.2⟩
    | sync | reload => simp [ha, isRecoveryOf] at h

theorem startsRecovery_firstRecovery : StartsRecovery firstRecovery 1 :=
  startsRecovery_of_check (k := 1) (by decide +kernel) (by decide +kernel)

theorem startsRecovery_secondRecovery : StartsRecovery secondRecovery 2 :=
  startsRecovery_of_check (k := 4) (by decide +kernel) (by decide +kernel)

/-- Whether an operation is a version discovery. -/
def isVersionOp : Option OpState → Bool
  | some (.running op) => match op.call with
    | .version _ => true
    | _ => false
  | _ => false

theorem versionUpdate_of_check {t : Transition (ManagedClient I ρ) (Event I)} {task : Task}
    {files : RegisterFiles} (he : t.event = .client (.finish task files))
    (hop : isVersionOp (t.before.client.ops task) = true)
    (hne : t.before.client.current ≠ t.after.client.current) :
    VersionUpdate t t.before.client.current t.after.client.current := by
  refine ⟨rfl, rfl, hne, ?_⟩
  cases hi : t.before.client.ops task with
  | none => simp [hi, isVersionOp] at hop
  | some state =>
    cases state with
    | done => simp [hi, isVersionOp] at hop
    | running op =>
      cases hcall : op.call with
      | version presented => exact ⟨task, files, op, presented, he, hi, hcall⟩
      | _ => simp [hi, isVersionOp, hcall] at hop

theorem lineage_sampleRun : Lineage sampleRun 1 2 := by
  have hmem : sampleUpdate ∈ sampleRun := by simp [sampleRun, betweenRun]
  have hbefore : sampleUpdate.before.client.current = 1 := by decide +kernel
  have hafter : sampleUpdate.after.client.current = 2 := by decide +kernel
  have hupdate := versionUpdate_of_check (t := sampleUpdate) rfl (by decide +kernel)
    (by rw [hbefore, hafter]; decide)
  rw [hbefore, hafter] at hupdate
  exact Relation.ReflTransGen.single ⟨sampleUpdate, hmem, hupdate⟩

theorem not_reloaded_betweenRun : ∀ t ∈ betweenRun, ¬ Reloaded t := by
  rintro t ht ⟨k, he, -⟩
  simp only [betweenRun, List.mem_append, List.mem_cons] at ht
  rcases ht with (ht | rfl | ht) | rfl | ht
  · have := event_mem_of_transitions ht
    rw [he] at this
    simp [refusedEvents, startEvents] at this
  · cases he
  · have := event_mem_of_transitions ht
    rw [he] at this
    simp [staleLoadEvents] at this
  · cases he
  · have := event_mem_of_transitions ht
    rw [he] at this
    simp [rejectedEvents, queryEvents, startEvents] at this

theorem recovery_budget_sampleRun :
    firstRecovery.before.client.now + 60 ≤ secondRecovery.before.client.now ∧
      Rearmed (Lineage sampleRun) 1 betweenRun := by
  have hclient : Client.withTransport sampleLibraries Client.sampleOptions sampleConfig none
      sampleTransport 0 = .ok sampleManaged.client := rfl
  have h := (recovery_budget hclient run_sampleRun).1 _ betweenRun [] firstRecovery secondRecovery
    1 2 rfl startsRecovery_firstRecovery startsRecovery_secondRecovery not_reloaded_betweenRun
  exact ⟨h.1, h.2 1 Relation.ReflTransGen.refl lineage_sampleRun⟩

/-- Whether an activity is a worker of the generation `g` that was not refused for its client
version. -/
def isOtherwiseEnded (g : ℕ) : Option Activity → Bool
  | some (.worker w) => w.generation = g && w.result.all fun result =>
    match result with
    | .ok _ => true
    | .error e => !e.clientUpdateRequired
  | _ => false

theorem ends_of_check {t : Transition (ManagedClient I ρ) (Event I)} {k g : ℕ}
    (he : t.event = .workerEnd k) (h : isOtherwiseEnded g (t.before.activities k) = true) :
    Ends t g ∧ ∀ g, ¬ Refused t g := by
  cases ha : t.before.activities k with
  | none => simp [ha, isOtherwiseEnded] at h
  | some a =>
    cases a with
    | worker w =>
      rw [ha] at h
      simp only [isOtherwiseEnded, Bool.and_eq_true, decide_eq_true_eq] at h
      refine ⟨⟨k, w, he, ha, h.1⟩, ?_⟩
      rintro g ⟨j, w', error, he', hk, -, hr, hcode⟩
      obtain rfl : k = j := by simpa [he] using he'
      obtain rfl : w = w' := by simpa [ha] using hk
      simpa [hr, hcode] using h.2
    | sync | reload => simp [ha, isOtherwiseEnded] at h

theorem recovery_budget_stale :
    Run sampleStep sampleManaged sampleRun secondRecovery.after ∧
      StartsRecovery firstRecovery 1 ∧ StartsRecovery secondRecovery 2 ∧
      (∀ t ∈ betweenRun, ¬ Reloaded t) ∧ Lineage sampleRun 1 2 ∧
      ¬ Excused (Lineage sampleRun) 1
        (transitions sampleStep sampleManaged staleEvents ++ firstRecovery :: betweenRun) := by
  refine ⟨run_sampleRun, startsRecovery_firstRecovery, startsRecovery_secondRecovery,
    not_reloaded_betweenRun, lineage_sampleRun, ?_⟩
  obtain ⟨hend, hnot⟩ := ends_of_check (t := staleLoadEnd) (g := 2) rfl (by decide +kernel)
  have hafter : ∀ s ∈ transitions sampleStep staleLoadEnd.after rejectedEvents,
      ∀ g, ¬ Refused s g := by
    rintro s hs g ⟨k, -, -, he, -⟩
    have hmem := event_mem_of_transitions hs
    rw [he] at hmem
    simp [rejectedEvents, queryEvents, startEvents] at hmem
  have hsplit := @not_excused _ _ _ _ (transitions sampleStep sampleManaged staleEvents ++
    firstRecovery :: (transitions sampleStep firstRecovery.after refusedEvents ++ sampleUpdate ::
      transitions sampleStep sampleUpdate.after staleLoadEvents)) _ _ _ lineage_sampleRun hend hnot
        hafter
  rw [betweenRun]
  convert hsplit using 2
  simp

end Sample

end MoenotesApi.ManagedClient
